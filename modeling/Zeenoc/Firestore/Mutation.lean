import Zeenoc.Firestore.DocumentSet
import Zeenoc.Firestore.ObjectValue

/-! What a client writes: `precondition.cc`, the mutations (`set_mutation.cc`, `patch_mutation.cc`,
`delete_mutation.cc`, `transform_mutation.cc`) and their batches (`mutation_batch.cc`). A failed
`HARD_ASSERT` is `none`. -/

namespace Firestore

/-- The document that is known, if one is: `maybe_doc && maybe_doc->is_document()`. -/
def found {V : Type} (maybeDoc : Option (MaybeDocument V)) : Option (Document V) :=
  maybeDoc.bind MaybeDocument.document?

inductive Precondition where
  | none
  | docExists (b : Bool)
  | updateTime (version : SnapshotVersion)
  deriving DecidableEq

def Precondition.isValidFor {V : Type} (p : Precondition) (maybeDoc : Option (MaybeDocument V)) :
    Bool :=
  match p with
  | .none => true
  | .docExists b => b = (found maybeDoc).isSome
  | .updateTime version => (found maybeDoc).any (·.version = version)

structure FieldTransform (V : Type) [ObjectValue V] where
  path : FieldPath
  transformation : ObjectValue.TransformOperation V

inductive Mutation (V : Type) [ObjectValue V] where
  | set (key : DocumentKey) (value : V) (precondition : Precondition)
  | patch (key : DocumentKey) (value : V) (mask : FieldMask) (precondition : Precondition)
  | transform (key : DocumentKey) (fieldTransforms : List (FieldTransform V))
  | delete (key : DocumentKey) (precondition : Precondition)

structure MutationResult (V : Type) [ObjectValue V] where
  version : SnapshotVersion
  transformResults : Option (List (ObjectValue.FieldValue V))

variable {V : Type} [ObjectValue V]

/-- `Mutation::GetPostMutationVersion` -/
def postMutationVersion (maybeDoc : Option (MaybeDocument V)) : SnapshotVersion :=
  match found maybeDoc with
  | some d => d.version
  | none => .none

def patchObject (value : V) (mask : FieldMask) (obj : V) : V :=
  mask.toList.foldl (fun obj path =>
    if path.isEmpty then obj
    else match ObjectValue.get value path with
      | none => ObjectValue.delete obj path
      | some newValue => ObjectValue.set obj path newValue) obj

def patchDocument (value : V) (mask : FieldMask) (maybeDoc : Option (MaybeDocument V)) : V :=
  match found maybeDoc with
  | some d => patchObject value mask d.data
  | none => patchObject value mask ObjectValue.empty

/-- `Document(*maybe_doc).field(path)`, if there is a document. -/
def previousValue (maybeDoc : Option (MaybeDocument V)) (path : FieldPath) :
    Option (ObjectValue.FieldValue V) :=
  (found maybeDoc).bind fun d => ObjectValue.get d.data path

def localTransformResults (fieldTransforms : List (FieldTransform V))
    (maybeDoc baseDoc : Option (MaybeDocument V)) (localWriteTime : Timestamp) :
    List (ObjectValue.FieldValue V) :=
  fieldTransforms.map fun t => ObjectValue.applyToLocalView t.transformation
    ((previousValue maybeDoc t.path).or (previousValue baseDoc t.path)) localWriteTime

def serverTransformResults (fieldTransforms : List (FieldTransform V))
    (baseDoc : Option (MaybeDocument V)) (results : List (ObjectValue.FieldValue V)) :
    Option (List (ObjectValue.FieldValue V)) :=
  if fieldTransforms.length = results.length then
    some (List.zipWith (fun t result => ObjectValue.applyToRemoteDocument t.transformation
      (previousValue baseDoc t.path) result) fieldTransforms results)
  else none

def transformObject (fieldTransforms : List (FieldTransform V)) (objectValue : V)
    (results : List (ObjectValue.FieldValue V)) : V :=
  (fieldTransforms.zip results).foldl (fun obj t => ObjectValue.set obj t.1.path t.2) objectValue

namespace Mutation
variable (m : Mutation V)

def key : Mutation V → DocumentKey
  | set key _ _ => key
  | patch key _ _ _ => key
  | transform key _ => key
  | delete key _ => key

def isPatch : Mutation V → Bool
  | patch _ _ _ _ => true
  | _ => false

def isTransform : Mutation V → Bool
  | transform _ _ => true
  | _ => false

def precondition : Mutation V → Precondition
  | set _ _ precondition => precondition
  | patch _ _ _ precondition => precondition
  | transform _ _ => .docExists true
  | delete _ precondition => precondition

def verifyKeyMatches (maybeDoc : Option (MaybeDocument V)) : Bool :=
  maybeDoc.all fun d => d.key = m.key

/-- The document before the mutation and before its batch. -/
def applyToLocalView (maybeDoc baseDoc : Option (MaybeDocument V)) (localWriteTime : Timestamp) :
    Option (Option (MaybeDocument V)) :=
  if m.verifyKeyMatches maybeDoc then
    if m.precondition.isValidFor maybeDoc then
      match m with
      | set key value _ =>
        some (some (.document ⟨key, value, postMutationVersion maybeDoc, .localMutations⟩))
      | patch key value mask _ =>
        some (some (.document ⟨key, patchDocument value mask maybeDoc,
          postMutationVersion maybeDoc, .localMutations⟩))
      | transform _ fieldTransforms =>
        (found maybeDoc).map fun d =>
          some (.document ⟨d.key, transformObject fieldTransforms d.data
            (localTransformResults fieldTransforms maybeDoc baseDoc localWriteTime),
            d.version, .localMutations⟩)
      | delete key _ => some (some (.noDocument key .none false))
    else some maybeDoc
  else none

/-- The server accepted the mutation, so its precondition held there. -/
def applyToRemoteDocument (maybeDoc : Option (MaybeDocument V)) (result : MutationResult V) :
    Option (MaybeDocument V) :=
  if m.verifyKeyMatches maybeDoc ∧
      result.transformResults.isSome = m.isTransform then
    match m with
    | set key value _ => some (.document ⟨key, value, result.version, .committedMutations⟩)
    | patch key value mask precondition =>
      if precondition.isValidFor maybeDoc then
        some (.document ⟨key, patchDocument value mask maybeDoc, result.version,
          .committedMutations⟩)
      else some (.unknownDocument key result.version)
    | transform key fieldTransforms =>
      match found maybeDoc with
      | some d => (serverTransformResults fieldTransforms maybeDoc
          (result.transformResults.getD [])).map fun results =>
          .document ⟨key, transformObject fieldTransforms d.data results, result.version,
            .committedMutations⟩
      | none => some (.unknownDocument key result.version)
    | delete key _ => some (.noDocument key result.version true)
  else none

/-- Only transforms have a base value. -/
def extractBaseValue (maybeDoc : Option (MaybeDocument V)) : Option V :=
  match m with
  | transform _ fieldTransforms => fieldTransforms.foldl (fun baseObject t =>
      match ObjectValue.computeBaseValue t.transformation (previousValue maybeDoc t.path) with
      | some coerced => some (ObjectValue.set (baseObject.getD ObjectValue.empty) t.path coerced)
      | none => baseObject) none
  | _ => none

end Mutation

structure MutationBatch (V : Type) [ObjectValue V] where
  batchId : ℤ
  localWriteTime : Timestamp
  baseMutations : List (Mutation V)
  mutations : List (Mutation V)
  ne_nil : mutations ≠ []

structure MutationBatchResult (V : Type) [ObjectValue V] where
  batch : MutationBatch V
  commitVersion : SnapshotVersion
  mutationResults : List (MutationResult V)
  length_eq : batch.mutations.length = mutationResults.length

/-- `doc_versions_`: of several results for a key the last one counts. -/
def MutationBatchResult.docVersions (r : MutationBatchResult V) :
    Std.ExtTreeMap DocumentKey SnapshotVersion :=
  (r.batch.mutations.zip r.mutationResults).foldl (fun versions x =>
    versions.insert x.1.key x.2.version) ∅

namespace MutationBatch
variable (b : MutationBatch V)

def applyToLocalDocument (maybeDoc : Option (MaybeDocument V)) (documentKey : DocumentKey) :
    Option (Option (MaybeDocument V)) :=
  if maybeDoc.all fun d => d.key = documentKey then
    (b.baseMutations.foldlM (fun maybeDoc m =>
      if m.key = documentKey then m.applyToLocalView maybeDoc maybeDoc b.localWriteTime
      else some maybeDoc) maybeDoc).bind fun baseDoc =>
    b.mutations.foldlM (fun maybeDoc m =>
      if m.key = documentKey then m.applyToLocalView maybeDoc baseDoc b.localWriteTime
      else some maybeDoc) baseDoc
  else none

def applyToRemoteDocument (maybeDoc : Option (MaybeDocument V)) (documentKey : DocumentKey)
    (r : MutationBatchResult V) : Option (Option (MaybeDocument V)) :=
  if (maybeDoc.all fun d => d.key = documentKey) ∧
      r.mutationResults.length = b.mutations.length then
    (b.mutations.zip r.mutationResults).foldlM (fun maybeDoc x =>
      if x.1.key = documentKey then (x.1.applyToRemoteDocument maybeDoc x.2).map some
      else some maybeDoc) maybeDoc
  else none

/-- The whole batch is applied once for each of its mutations. -/
def applyToLocalDocumentSet (documentSet : MaybeDocumentMap V) : Option (MaybeDocumentMap V) :=
  b.mutations.foldlM (fun mutatedDocuments m =>
    (b.applyToLocalDocument mutatedDocuments[m.key]? m.key).map fun
      | some mutated => mutatedDocuments.insert m.key mutated
      | none => mutatedDocuments) documentSet

def keys : DocumentKeySet := b.mutations.foldl (fun set m => set.insert m.key) ∅

def affects (key : DocumentKey) : Bool := b.mutations.any fun m => m.key = key

theorem affects_iff {b : MutationBatch V} {key : DocumentKey} :
    b.affects key ↔ ∃ m ∈ b.mutations, m.key = key := by
  simp [affects]

theorem mem_keys {key : DocumentKey} : key ∈ b.keys ↔ b.affects key := by
  unfold keys
  rw [Loops.mem_foldl_insert, affects_iff]
  simp

end MutationBatch

def HasKey (maybeDoc : Option (MaybeDocument V)) (key : DocumentKey) : Prop :=
  ∀ d, maybeDoc = some d → d.key = key

omit [ObjectValue V] in
theorem hasKey_none (key : DocumentKey) : HasKey (none : Option (MaybeDocument V)) key :=
  fun _ h => by cases h

omit [ObjectValue V] in
theorem hasKey_some {d : MaybeDocument V} {key : DocumentKey} : HasKey (some d) key ↔ d.key = key :=
  ⟨fun h => h d rfl, fun h _ hd => Option.some.inj hd ▸ h⟩

omit [ObjectValue V] in
theorem HasKey.all_eq {maybeDoc : Option (MaybeDocument V)} {key : DocumentKey}
    (h : HasKey maybeDoc key) : (maybeDoc.all fun d => d.key = key) = true := by
  cases maybeDoc with
  | none => rfl
  | some d => simpa using h d rfl

omit [ObjectValue V] in
theorem HasKey.found {maybeDoc : Option (MaybeDocument V)} {key : DocumentKey}
    (h : HasKey maybeDoc key) {d : Document V} (hd : found maybeDoc = some d) : d.key = key := by
  obtain ⟨m, rfl, hm⟩ := Option.bind_eq_some_iff.mp hd
  cases m with
  | document d' =>
    obtain rfl := Option.some.inj hm
    exact h _ rfl
  | noDocument key version hasCommittedMutations => cases hm
  | unknownDocument key version => cases hm

def seen (maybeDoc : Option (MaybeDocument V)) : Option (DocumentKey × V × DocumentState) :=
  (found maybeDoc).map Document.unversioned

omit [ObjectValue V] in
theorem isSome_seen (maybeDoc : Option (MaybeDocument V)) :
    (seen maybeDoc).isSome = (found maybeDoc).isSome := Option.isSome_map

theorem patchDocument_congr {doc doc' : Option (MaybeDocument V)} (h : seen doc = seen doc')
    {value : V} {mask : FieldMask} : patchDocument value mask doc =
        patchDocument value mask doc' := by
  unfold seen at h
  unfold patchDocument
  cases hd : found doc with
  | none =>
    rw [hd, Option.map_none, eq_comm, Option.map_eq_none_iff] at h
    rw [h]
  | some d =>
    rw [hd, Option.map_some, eq_comm, Option.map_eq_some_iff] at h
    obtain ⟨d', hd', he⟩ := h
    have hdata : d'.data = d.data := congrArg (fun x => x.2.1) he
    simp only [hd', hdata]

namespace Mutation
variable {m : Mutation V} {maybeDoc baseDoc : Option (MaybeDocument V)} {key : DocumentKey}
  {localWriteTime : Timestamp}

def localView (m : Mutation V) (maybeDoc baseDoc : Option (MaybeDocument V))
    (localWriteTime : Timestamp) : Option (MaybeDocument V) :=
  (m.applyToLocalView maybeDoc baseDoc localWriteTime).getD maybeDoc

theorem applyToLocalView_eq (h : HasKey maybeDoc m.key) :
    m.applyToLocalView maybeDoc baseDoc localWriteTime =
        some (m.localView maybeDoc baseDoc localWriteTime) ∧
      HasKey (m.localView maybeDoc baseDoc localWriteTime) m.key := by
  have htotal : ∃ doc, m.applyToLocalView maybeDoc baseDoc localWriteTime = some doc ∧
      HasKey doc m.key := by
    unfold applyToLocalView verifyKeyMatches
    rw [if_pos h.all_eq]
    split_ifs with hvalid
    · cases m with
      | set key value p => exact ⟨_, rfl, hasKey_some.mpr rfl⟩
      | patch key value mask p => exact ⟨_, rfl, hasKey_some.mpr rfl⟩
      | delete key p => exact ⟨_, rfl, hasKey_some.mpr rfl⟩
      | transform key ts =>
        have hsome : (found maybeDoc).isSome := by
          simpa [precondition, Precondition.isValidFor] using hvalid
        obtain ⟨d, hd⟩ := Option.isSome_iff_exists.mp hsome
        have hkey : d.key = key := h.found hd
        simp only [hd]
        exact ⟨_, rfl, hasKey_some.mpr hkey⟩
    · exact ⟨_, rfl, h⟩
  obtain ⟨doc, hdoc, hkey⟩ := htotal
  have hview : m.localView maybeDoc baseDoc localWriteTime = doc := by
    rw [localView, hdoc, Option.getD_some]
  rw [hview]
  exact ⟨hdoc, hkey⟩

theorem isSome_localView (h : maybeDoc.isSome) :
    (m.localView maybeDoc baseDoc localWriteTime).isSome := by
  unfold localView applyToLocalView
  split_ifs
  · cases m with
    | set key value p => rfl
    | patch key value mask p => rfl
    | delete key p => rfl
    | transform key ts => cases found maybeDoc <;> simp [h]
  · exact h
  · exact h

/-- What a mutation makes of what is known depends on the document alone: an unknown document and
one that is known to be absent are the same to it. -/
theorem found_localView_congr {doc doc' base base' : Option (MaybeDocument V)}
    (h : HasKey doc m.key) (h' : HasKey doc' m.key) (hdoc : found doc = found doc')
    (hbase : found base = found base') :
    found (m.localView doc base localWriteTime) =
        found (m.localView doc' base' localWriteTime) := by
  have hvalid : m.precondition.isValidFor doc = m.precondition.isValidFor doc' := by
    simp only [Precondition.isValidFor, hdoc]
  have hprevious : ∀ path, previousValue doc path = previousValue doc' path ∧
      previousValue base path = previousValue base' path := by
    intro path
    simp only [previousValue, hdoc, hbase, and_self]
  unfold localView applyToLocalView verifyKeyMatches
  rw [if_pos h.all_eq, if_pos h'.all_eq, hvalid]
  by_cases hp : m.precondition.isValidFor doc'
  · rw [if_pos hp, if_pos hp]
    cases m with
    | set key value p => simp only [postMutationVersion, hdoc, Option.getD_some]
    | patch key value mask p =>
      simp only [postMutationVersion, patchDocument, hdoc, Option.getD_some]
    | delete key p => rfl
    | transform key ts =>
      simp only [localTransformResults, hprevious, hdoc]
      cases hd : found doc' with
      | some d => rfl
      | none => simp [hdoc, hd]
  · rw [if_neg hp, if_neg hp]
    exact hdoc

/-- What `setData`, `updateData` and `deleteDocument` send when no field is transformed. -/
def plain : Mutation V → Bool
  | set _ _ precondition => precondition = .none
  | patch _ _ _ precondition => precondition = .none || precondition = .docExists true
  | transform _ _ => false
  | delete _ precondition => precondition = .none

theorem plain_valid (hm : m.plain) : m.precondition.isValidFor maybeDoc =
    ((m.precondition = .none) || (found maybeDoc).isSome) := by
  cases m with
  | set key value p =>
    obtain rfl : p = .none := by simpa [plain] using hm
    rfl
  | delete key p =>
    obtain rfl : p = .none := by simpa [plain] using hm
    rfl
  | transform key ts => simp [plain] at hm
  | patch key value mask p =>
    have hp : p = .none ∨ p = .docExists true := by simpa [plain] using hm
    rcases hp with rfl | rfl
    · rfl
    · simp [precondition, Precondition.isValidFor]

theorem plain_base (hm : m.plain) {base : Option (MaybeDocument V)} :
    m.localView maybeDoc baseDoc localWriteTime = m.localView maybeDoc base localWriteTime := by
  cases m with
  | set key value p => rfl
  | patch key value mask p => rfl
  | delete key p => rfl
  | transform key ts => simp [plain] at hm

theorem seen_localView_congr {doc doc' base base' : Option (MaybeDocument V)} (hm : m.plain)
    (h : HasKey doc m.key) (h' : HasKey doc' m.key) (hdoc : seen doc = seen doc') :
    seen (m.localView doc base localWriteTime) = seen (m.localView doc' base' localWriteTime) := by
  have hvalid : m.precondition.isValidFor doc = m.precondition.isValidFor doc' := by
    rw [plain_valid hm, plain_valid hm, ← isSome_seen, ← isSome_seen, hdoc]
  unfold localView applyToLocalView verifyKeyMatches
  rw [if_pos h.all_eq, if_pos h'.all_eq, hvalid]
  by_cases hp : m.precondition.isValidFor doc'
  · rw [if_pos hp, if_pos hp]
    cases m with
    | set key value p => rfl
    | patch key value mask p =>
      simp only [seen, found, Option.getD_some, Option.bind_some, MaybeDocument.document?,
        Option.map_some, Document.unversioned, patchDocument_congr hdoc]
    | delete key p => rfl
    | transform key ts => simp [plain] at hm
  · rw [if_neg hp, if_neg hp]
    exact hdoc

theorem seen_localView_overwrite {doc doc' base base' : Option (MaybeDocument V)} (hm : m.plain)
    (hpatch : ¬m.isPatch) (h : HasKey doc m.key) (h' : HasKey doc' m.key) :
    seen (m.localView doc base localWriteTime) = seen (m.localView doc' base' localWriteTime) := by
  unfold localView applyToLocalView verifyKeyMatches
  rw [if_pos h.all_eq, if_pos h'.all_eq, plain_valid hm, plain_valid hm]
  cases m with
  | set key value p =>
    obtain rfl : p = .none := by simpa [plain] using hm
    rfl
  | patch key value mask p => simp [isPatch] at hpatch
  | delete key p =>
    obtain rfl : p = .none := by simpa [plain] using hm
    rfl
  | transform key ts => simp [plain] at hm

end Mutation

namespace MutationBatch
variable {b : MutationBatch V} {maybeDoc : Option (MaybeDocument V)} {key : DocumentKey}

def localView (b : MutationBatch V) (key : DocumentKey) (maybeDoc : Option (MaybeDocument V)) :
    Option (MaybeDocument V) := (b.applyToLocalDocument maybeDoc key).getD maybeDoc

/-- The base mutations are for documents that the batch writes to. -/
def BaseAffected (b : MutationBatch V) : Prop := ∀ m ∈ b.baseMutations, b.affects m.key

/-- The base of a batch: the document before it, with the values that its transforms start from. -/
def baseView (b : MutationBatch V) (key : DocumentKey) (maybeDoc : Option (MaybeDocument V)) :
    Option (MaybeDocument V) :=
  b.baseMutations.foldl (fun doc m =>
    if m.key = key then m.localView doc doc b.localWriteTime else doc) maybeDoc

theorem applyToLocalDocument_eq (h : HasKey maybeDoc key) :
    b.applyToLocalDocument maybeDoc key = some (b.localView key maybeDoc) ∧
      HasKey (b.baseView key maybeDoc) key ∧ HasKey (b.localView key maybeDoc) key ∧
      b.localView key maybeDoc = b.mutations.foldl (fun doc m =>
        if m.key = key then m.localView doc (b.baseView key maybeDoc) b.localWriteTime else doc)
          (b.baseView key maybeDoc) := by
  obtain ⟨hbase, hkey⟩ := Loops.foldlM_total
    (f := fun doc (m : Mutation V) =>
      if m.key = key then m.applyToLocalView doc doc b.localWriteTime else some doc)
    (fun doc m => if m.key = key then m.localView doc doc b.localWriteTime else doc)
    (HasKey · key) (l := b.baseMutations) h fun doc m _ hdoc => by
      by_cases hm : m.key = key
      · subst hm
        simpa using Mutation.applyToLocalView_eq hdoc
      · simpa [hm] using hdoc
  obtain ⟨hmutations, hkey'⟩ := Loops.foldlM_total
    (f := fun doc (m : Mutation V) =>
      if m.key = key then m.applyToLocalView doc (b.baseView key maybeDoc) b.localWriteTime
      else some doc)
    (fun doc m =>
      if m.key = key then m.localView doc (b.baseView key maybeDoc) b.localWriteTime else doc)
    (HasKey · key) (l := b.mutations) hkey fun doc m _ hdoc => by
      by_cases hm : m.key = key
      · subst hm
        simpa using Mutation.applyToLocalView_eq hdoc
      · simpa [hm] using hdoc
  have happly : b.applyToLocalDocument maybeDoc key = some (b.mutations.foldl (fun doc m =>
      if m.key = key then m.localView doc (b.baseView key maybeDoc) b.localWriteTime else doc)
        (b.baseView key maybeDoc)) := by
    unfold applyToLocalDocument
    rw [if_pos h.all_eq, hbase, Option.bind_some]
    exact hmutations
  have hview : b.localView key maybeDoc = b.mutations.foldl (fun doc m =>
      if m.key = key then m.localView doc (b.baseView key maybeDoc) b.localWriteTime else doc)
        (b.baseView key maybeDoc) := by
    rw [localView, happly, Option.getD_some]
  rw [hview]
  exact ⟨happly, hkey, hkey', rfl⟩

theorem hasKey_localView (h : HasKey maybeDoc key) (b : MutationBatch V) :
    HasKey (b.localView key maybeDoc) key := (applyToLocalDocument_eq h).2.2.1

theorem localView_of_not_affects (hb : b.BaseAffected) (hkey : ¬b.affects key)
    (h : HasKey maybeDoc key) : b.localView key maybeDoc = maybeDoc := by
  have hmutations : ∀ m ∈ b.mutations, m.key ≠ key := by
    intro m hm he
    exact hkey (List.any_eq_true.mpr ⟨m, hm, by simpa using he⟩)
  have hbase : ∀ m ∈ b.baseMutations, m.key ≠ key := by
    intro m hm he
    exact hkey (he ▸ hb m hm)
  have hskip : ∀ (ms : List (Mutation V)) (f : Option (MaybeDocument V) → Mutation V →
      Option (MaybeDocument V)) (doc : Option (MaybeDocument V)), (∀ m ∈ ms, m.key ≠ key) →
      ms.foldl (fun doc m => if m.key = key then f doc m else doc) doc = doc := by
    intro ms f doc hms
    rw [Loops.foldl_filter_key Mutation.key fun m doc => f doc m,
      List.filter_eq_nil_iff.mpr fun m hm => by simpa using hms m hm, List.foldl_nil]
  obtain ⟨-, -, -, hview⟩ := applyToLocalDocument_eq (b := b) h
  rw [hview, hskip _ (fun doc m => m.localView doc (b.baseView key maybeDoc) b.localWriteTime) _
    hmutations]
  exact hskip _ (fun doc m => m.localView doc doc b.localWriteTime) _ hbase

section Documents
variable {k : DocumentKey} {doc : Option (MaybeDocument V)}

theorem isSome_localView (hkey : HasKey doc k) (h : doc.isSome) : (b.localView k doc).isSome := by
  have hkeep : ∀ (ms : List (Mutation V)) (f : Option (MaybeDocument V) → Mutation V →
      Option (MaybeDocument V)) (doc : Option (MaybeDocument V)),
      (∀ doc m, doc.isSome → (f doc m).isSome) → doc.isSome →
        (ms.foldl (fun doc m => if m.key = k then f doc m else doc) doc).isSome := by
    intro ms f doc hf hdoc
    refine List.foldlRecOn (motive := fun doc => Option.isSome doc) ms _ hdoc fun doc hdoc m _ => ?_
    split_ifs
    · exact hf doc m hdoc
    · exact hdoc
  obtain ⟨-, -, -, hview⟩ := applyToLocalDocument_eq (b := b) hkey
  rw [hview]
  exact hkeep _ (fun doc m => m.localView doc (b.baseView k _) b.localWriteTime) _
    (fun _ _ => Mutation.isSome_localView)
    (hkeep _ (fun doc m => m.localView doc doc b.localWriteTime) _
      (fun _ _ => Mutation.isSome_localView) h)

/-- A second application of the batch changes nothing, or there is none: the batch is applied once
for each of its mutations of the document. -/
def Settles (b : MutationBatch V) (k : DocumentKey) (doc : Option (MaybeDocument V)) : Prop :=
  (b.mutations.filter fun m => m.key = k).length ≤ 1 ∨
    found (b.localView k (b.localView k doc)) = found (b.localView k doc)

theorem settles_of_nodup (h : (b.mutations.map Mutation.key).Nodup) : b.Settles k doc := by
  refine .inl ?_
  have hnodup : ((b.mutations.filter fun m => m.key = k).map Mutation.key).Nodup :=
    h.sublist (List.filter_sublist.map _)
  have hsame : ∀ m ∈ b.mutations.filter fun m => m.key = k, m.key = k := fun m hm => by
    simpa using (List.mem_filter.mp hm).2
  rcases hlist : b.mutations.filter fun m => m.key = k with _ | ⟨m, _ | ⟨m', rest⟩⟩
  · simp [hlist]
  · simp [hlist]
  · rw [hlist] at hnodup hsame
    have hne := (List.nodup_cons.mp hnodup).1
    have hk := hsame m List.mem_cons_self
    have hk' := hsame m' (List.mem_cons_of_mem _ List.mem_cons_self)
    exact absurd (List.mem_cons.mpr (.inl (hk.trans hk'.symm))) hne

theorem applyToLocalDocumentSet_eq (documents : MaybeDocumentMap V)
    (hkeyed : ∀ k : DocumentKey, HasKey documents[k]? k)
    (hall : ∀ k : DocumentKey, b.affects k → documents[k]?.isSome) :
    ∃ mutated, b.applyToLocalDocumentSet documents = some mutated ∧
      ∀ k : DocumentKey, mutated[k]? = (b.mutations.filter fun m => m.key = k).foldl
        (fun doc _ => b.localView k doc) documents[k]? := by
  have hstep : ∀ (documents : MaybeDocumentMap V), ∀ m ∈ b.mutations,
      ((∀ k : DocumentKey, HasKey documents[k]? k) ∧
        ∀ k : DocumentKey, b.affects k → documents[k]?.isSome) →
      ∃ d, b.applyToLocalDocument documents[m.key]? m.key = some (some d) ∧
        ((∀ k : DocumentKey, HasKey (documents.insert m.key d)[k]? k) ∧
          ∀ k : DocumentKey, b.affects k → (documents.insert m.key d)[k]?.isSome) ∧
        ∀ k : DocumentKey, (documents.insert m.key d)[k]? =
          if m.key = k then b.localView m.key documents[k]? else documents[k]? := by
    intro documents m hm hdocuments
    obtain ⟨hkeyed, hall⟩ := hdocuments
    have hsome := isSome_localView (b := b) (hkeyed m.key)
      (hall m.key (affects_iff.mpr ⟨m, hm, rfl⟩))
    obtain ⟨d, hd⟩ := Option.isSome_iff_exists.mp hsome
    have hview := (applyToLocalDocument_eq (b := b) (hkeyed m.key)).1
    have hdkey := hasKey_localView (hkeyed m.key) b
    rw [hd] at hview hdkey
    have hget : ∀ k : DocumentKey, (documents.insert m.key d)[k]? =
        if m.key = k then b.localView m.key documents[k]? else documents[k]? := by
      intro k
      rw [Std.ExtTreeMap.getElem?_insert]
      simp only [Std.LawfulEqCmp.compare_eq_iff_eq]
      split_ifs with hk
      · rw [← hk, hd]
      · rfl
    refine ⟨d, hview, ⟨fun k => ?_, fun k hk => ?_⟩, hget⟩
    · rw [hget]
      split_ifs with he
      · rw [← he, hd]
        exact hdkey
      · exact hkeyed k
    · rw [hget]
      split_ifs with he
      · rw [← he, hd]
        rfl
      · exact hall k hk
  obtain ⟨mutated, hloop, -, hget⟩ := Loops.foldlM_places
    (fun (documents : MaybeDocumentMap V) k => documents[k]?) Mutation.key
    (fun m doc => b.localView m.key doc) (l := b.mutations)
    (f := fun (mutatedDocuments : MaybeDocumentMap V) m =>
      (b.applyToLocalDocument mutatedDocuments[m.key]? m.key).map fun
        | some mutated => mutatedDocuments.insert m.key mutated
        | none => mutatedDocuments)
    (fun documents => (∀ k : DocumentKey, HasKey documents[k]? k) ∧
      ∀ k : DocumentKey, b.affects k → documents[k]?.isSome) ⟨hkeyed, hall⟩
    fun documents m hm hdocuments => by
      obtain ⟨d, hd, hdocuments', hget⟩ := hstep documents m hm hdocuments
      exact ⟨_, by rw [hd]; rfl, hdocuments', hget⟩
  refine ⟨mutated, hloop, fun k => (hget k).trans ?_⟩
  refine List.foldl_rel rfl fun m hm x y hxy => ?_
  obtain rfl : m.key = k := by simpa using (List.mem_filter.mp hm).2
  rw [hxy]

end Documents

section Congr
variable {doc doc' : Option (MaybeDocument V)}

theorem localView_rel {R : Option (MaybeDocument V) → Option (MaybeDocument V) → Prop}
    (h : HasKey doc key) (h' : HasKey doc' key) (hR : R doc doc')
    (hstep : ∀ m ∈ b.baseMutations ++ b.mutations, m.key = key → ∀ x x' base base', HasKey x key →
      HasKey x' key → R x x' → R base base' →
      R (m.localView x base b.localWriteTime) (m.localView x' base' b.localWriteTime)) :
    R (b.localView key doc) (b.localView key doc') := by
  have hbase : HasKey (b.baseView key doc) key ∧ HasKey (b.baseView key doc') key ∧
      R (b.baseView key doc) (b.baseView key doc') := by
    unfold baseView
    refine List.foldl_rel (r := fun x x' => HasKey x key ∧ HasKey x' key ∧ R x x') ⟨h, h', hR⟩
      fun m hm x x' ⟨hx, hx', hxR⟩ => ?_
    by_cases hkey : m.key = key
    · rw [if_pos hkey, if_pos hkey]
      refine ⟨?_, ?_, hstep m (List.mem_append_left _ hm) hkey _ _ _ _ hx hx' hxR hxR⟩
      · exact hkey ▸ (Mutation.applyToLocalView_eq (hkey ▸ hx)).2
      · exact hkey ▸ (Mutation.applyToLocalView_eq (hkey ▸ hx')).2
    · rw [if_neg hkey, if_neg hkey]
      exact ⟨hx, hx', hxR⟩
  obtain ⟨-, -, -, hview⟩ := applyToLocalDocument_eq (b := b) h
  obtain ⟨-, -, -, hview'⟩ := applyToLocalDocument_eq (b := b) h'
  rw [hview, hview']
  refine (List.foldl_rel (r := fun x x' => HasKey x key ∧ HasKey x' key ∧ R x x') hbase
    fun m hm x x' ⟨hx, hx', hxR⟩ => ?_).2.2
  by_cases hkey : m.key = key
  · rw [if_pos hkey, if_pos hkey]
    refine ⟨?_, ?_, hstep m (List.mem_append_right _ hm) hkey _ _ _ _ hx hx' hxR hbase.2.2⟩
    · exact hkey ▸ (Mutation.applyToLocalView_eq (hkey ▸ hx)).2
    · exact hkey ▸ (Mutation.applyToLocalView_eq (hkey ▸ hx')).2
  · rw [if_neg hkey, if_neg hkey]
    exact ⟨hx, hx', hxR⟩

theorem found_localView_congr (h : HasKey doc key) (h' : HasKey doc' key)
    (hdoc : found doc = found doc') :
    found (b.localView key doc) = found (b.localView key doc') := by
  refine localView_rel (R := fun x x' => found x = found x') h h' hdoc ?_
  intro m _ hm x x' base base' hx hx' hR hbase
  subst hm
  exact Mutation.found_localView_congr hx hx' hR hbase

def plain (b : MutationBatch V) : Bool := b.baseMutations.isEmpty && b.mutations.all Mutation.plain

end Congr

end MutationBatch
end Firestore
