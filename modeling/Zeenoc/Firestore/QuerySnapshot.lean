import Zeenoc.Firestore.DocumentChange
import Zeenoc.Firestore.LinkedSnapshots

/-! The changes of a snapshot with their indexes (`query_snapshot.cc`): whoever applies them to a
list of the old documents gets the list of the new ones. -/

namespace Firestore
variable {V : Type} {q : Query V}

namespace Api

structure SnapshotMetadata where
  pendingWrites : Bool
  fromCache : Bool

structure DocumentSnapshot (V : Type) where
  document : Document V
  metadata : SnapshotMetadata

/-- An index that is `npos` is `none`. -/
structure DocumentChange (V : Type) where
  type : ChangeType
  document : DocumentSnapshot V
  oldIndex : Option ℕ
  newIndex : Option ℕ

end Api

def documentChangeTypeForChange (change : DocumentViewChange V) : ChangeType :=
  match change.type with
  | .added => .added
  | .modified => .modified
  | .metadata => .modified
  | .removed => .removed

namespace ViewSnapshot
variable (s : ViewSnapshot q)

def documentSnapshot (doc : Document V) : Api.DocumentSnapshot V :=
  ⟨doc, ⟨s.mutatedKeys.contains doc.key, s.fromCache⟩⟩

/-- The loop over the changes of a first snapshot. -/
def initialChanges (lastDocument : Option (Document V)) (index : ℕ) :
    List (DocumentViewChange V) → Except String (List (Api.DocumentChange V))
  | [] => .ok []
  | change :: changes =>
    if change.type ≠ .added then .error "Invalid event type for first snapshot"
    else if lastDocument.any fun last => q.comparator.compare last change.document ≠ .lt then
      .error "Got added events in wrong order"
    else (initialChanges (some change.document) (index + 1) changes).map
      (⟨.added, s.documentSnapshot change.document, none, some index⟩ :: ·)

/-- The loop over the changes of any other snapshot. -/
def trackedChanges (includeMetadataChanges : Bool) (indexTracker : DocumentSet q.comparator) :
    List (DocumentViewChange V) → Except String (List (Api.DocumentChange V))
  | [] => .ok []
  | change :: changes =>
    if !includeMetadataChanges && change.type = .metadata then
      trackedChanges includeMetadataChanges indexTracker changes
    else
      let key := change.document.key
      let oldIndex := if change.type ≠ .added then indexTracker.indexOf key else none
      if change.type ≠ .added ∧ oldIndex = none then .error "Index for document not found"
      else
        let indexTracker := if change.type ≠ .added then indexTracker.erase key else indexTracker
        let indexTracker :=
          if change.type ≠ .removed then indexTracker.insert change.document else indexTracker
        let newIndex := if change.type ≠ .removed then indexTracker.indexOf key else none
        (trackedChanges includeMetadataChanges indexTracker changes).map
          (⟨documentChangeTypeForChange change, s.documentSnapshot change.document, oldIndex,
            newIndex⟩ :: ·)

def forEachChange (includeMetadataChanges : Bool) : Except String (List (Api.DocumentChange V)) :=
  if includeMetadataChanges && s.excludesMetadataChanges then
    .error ("To include metadata changes with your document changes, " ++
      "you must call addSnapshotListener(includeMetadataChanges:true).")
  else if s.oldDocuments.size = 0 then s.initialChanges none 0 s.documentChanges
  else s.trackedChanges includeMetadataChanges s.oldDocuments s.documentChanges

def fromInitialDocuments (documents : DocumentSet q.comparator) (mutatedKeys : DocumentKeySet)
    (fromCache excludesMetadataChanges : Bool) : ViewSnapshot q where
  documents := documents
  oldDocuments := .empty
  documentChanges := documents.sortedSet.map fun doc => ⟨doc, .added⟩
  mutatedKeys := mutatedKeys
  fromCache := fromCache
  syncStateChanged := true
  excludesMetadataChanges := excludesMetadataChanges

end ViewSnapshot

section Replay
variable {γ : Type} (g : Document V → γ)

def entry (d : Document V) : DocumentKey × γ := (d.key, g d)

def entries {c : DocumentComparator V} (documents : DocumentSet c) : List (DocumentKey × γ) :=
  documents.sortedSet.map (entry g)

/-- A change, applied at its indexes; `none` when it does not fit the list. -/
def Api.DocumentChange.replay (l : List (DocumentKey × γ)) (change : Api.DocumentChange V) :
    Option (List (DocumentKey × γ)) :=
  let e := entry g change.document.document
  match change.type, change.oldIndex, change.newIndex with
  | .added, none, some new => if new ≤ l.length then some (l.insertIdx new e) else none
  | .modified, some old, some new =>
    if l[old]?.map Prod.fst = some e.1 ∧ new < l.length then some ((l.eraseIdx old).insertIdx new e)
    else none
  | .removed, some old, none =>
    if l[old]?.map Prod.fst = some e.1 then some (l.eraseIdx old) else none
  | _, _, _ => none

variable {g} {s : ViewSnapshot q}

section Positions
variable {l : List (DocumentKey × γ)} {doc : Api.DocumentSnapshot V} {i j : ℕ}

theorem Api.DocumentChange.replay_added (hi : i ≤ l.length) :
    Api.DocumentChange.replay g l ⟨.added, doc, none, some i⟩ =
      some (l.insertIdx i (entry g doc.document)) := if_pos hi

theorem Api.DocumentChange.replay_removed (hi : l[i]?.map Prod.fst = some doc.document.key) :
    Api.DocumentChange.replay g l ⟨.removed, doc, some i, none⟩ = some (l.eraseIdx i) := if_pos hi

theorem Api.DocumentChange.replay_modified (hi : l[i]?.map Prod.fst = some doc.document.key)
    (hj : j ≤ (l.eraseIdx i).length) :
    Api.DocumentChange.replay g l ⟨.modified, doc, some i, some j⟩ =
      some ((l.eraseIdx i).insertIdx j (entry g doc.document)) := by
  have hin : i < l.length := by
    by_contra hout
    rw [List.getElem?_eq_none (not_lt.mp hout)] at hi
    cases hi
  rw [List.length_eraseIdx_of_lt hin] at hj
  exact if_pos ⟨hi, by omega⟩

variable {t : DocumentSet q.comparator} {k : DocumentKey} {d : Document V}

theorem entries_erase (h : t.getDocument k = some d) : ∃ i, t.indexOf k = some i ∧
    (entries g t)[i]?.map Prod.fst = some k ∧ entries g (t.erase k) = (entries g t).eraseIdx i := by
  obtain ⟨i, hindex, hget, herase⟩ := DocumentSet.indexOf_eq_some h
  refine ⟨i, hindex, ?_, ?_⟩
  · rw [entries, List.getElem?_map, hget, ← t.getDocument_key h]
    rfl
  · unfold entries
    rw [herase, List.eraseIdx_map]

theorem entries_insert (h : t.getDocument d.key = none) : ∃ i,
    (t.insert d).indexOf d.key = some i ∧ i ≤ (entries g t).length ∧
      entries g (t.insert d) = (entries g t).insertIdx i (entry g d) := by
  obtain ⟨i, hindex, hle, hinsert⟩ := t.indexOf_insert d
  have hsame : t.erase d.key = t := by
    apply DocumentSet.ext_getDocument
    intro k
    rw [DocumentSet.getDocument_erase]
    split_ifs with hk
    · rw [hk, h]
    · rfl
  rw [hsame] at hle hinsert
  refine ⟨i, hindex, by rwa [entries, List.length_map], ?_⟩
  unfold entries
  rw [hinsert, List.map_insertIdx]

end Positions

theorem initialChanges_replay {changes : List (DocumentViewChange V)} {last : Option (Document V)}
    (hadded : ∀ change ∈ changes, change.type = .added)
    (hsorted : SortedList.Sorted q.comparator.compare (changes.map DocumentViewChange.document))
    (hlast : ∀ d, last = some d → ∀ change ∈ changes,
      q.comparator.compare d change.document = .lt) (l : List (DocumentKey × γ)) :
    ∃ out, s.initialChanges last l.length changes = .ok out ∧
      out.foldlM (Api.DocumentChange.replay g) l =
        some (l ++ changes.map fun change => entry g change.document) := by
  induction changes generalizing last l with
  | nil => exact ⟨[], rfl, by simp⟩
  | cons change changes ih =>
    have hsorted' := List.pairwise_cons.mp hsorted
    have hnext : ∀ d, some change.document = some d → ∀ c ∈ changes,
        q.comparator.compare d c.document = .lt := by
      intro d hd c hc
      obtain rfl := Option.some.inj hd
      exact hsorted'.1 c.document (List.mem_map_of_mem hc)
    obtain ⟨out, hout, hreplay⟩ := ih (fun c hc => hadded c (List.mem_cons_of_mem _ hc))
      hsorted'.2 hnext (l ++ [entry g change.document])
    have horder : ¬(last.any fun last => q.comparator.compare last change.document ≠ .lt) := by
      rw [Option.any_eq_true]
      rintro ⟨d, hd, hne⟩
      rw [hlast d hd change List.mem_cons_self] at hne
      simp at hne
    rw [List.length_append, List.length_singleton] at hout
    refine ⟨⟨.added, s.documentSnapshot change.document, none, some l.length⟩ :: out, ?_, ?_⟩
    · rw [ViewSnapshot.initialChanges, if_neg (by simp [hadded change List.mem_cons_self]),
        if_neg horder, hout]
      rfl
    · rw [List.foldlM_cons, Api.DocumentChange.replay_added le_rfl, List.insertIdx_length_self]
      simpa [ViewSnapshot.documentSnapshot] using hreplay

theorem replay_tracked {t : DocumentSet q.comparator} {change : DocumentViewChange V}
    (hkey : change.type ≠ .added ↔ ∃ d, t.getDocument change.document.key = some d)
    (changes : List (DocumentViewChange V)) :
    ∃ (first : Api.DocumentChange V) (t' : DocumentSet q.comparator),
      s.trackedChanges true t (change :: changes) =
          (s.trackedChanges true t' changes).map (first :: ·) ∧
        first.replay g (entries g t) = some (entries g t') ∧
        ∀ k, t'.getDocument k = if k = change.document.key then
          (if change.type = .removed then none else some change.document) else t.getDocument k := by
  obtain ⟨doc, type⟩ := change
  have hput : ∀ {t : DocumentSet q.comparator} (k : DocumentKey),
      ((t.erase doc.key).insert doc).getDocument k =
        if k = doc.key then some doc else t.getDocument k := by
    intro t k
    rw [DocumentSet.getDocument_insert, DocumentSet.getDocument_erase]
    split_ifs <;> rfl
  have habsent : (t.erase doc.key).getDocument doc.key = none := by
    rw [DocumentSet.getDocument_erase, if_pos rfl]
  by_cases hadded : type = .added
  · subst hadded
    have hnone : t.getDocument doc.key = none := by
      rw [Option.eq_none_iff_forall_ne_some]
      exact fun d hd => hkey.mpr ⟨d, hd⟩ rfl
    obtain ⟨i, hindex, hle, hinsert⟩ := entries_insert (g := g) hnone
    refine ⟨⟨.added, s.documentSnapshot doc, none, some i⟩, t.insert doc, ?_, ?_, ?_⟩
    · simp [ViewSnapshot.trackedChanges, hindex, documentChangeTypeForChange]
    · rw [Api.DocumentChange.replay_added hle, hinsert]
      rfl
    · exact fun k => t.getDocument_insert doc k
  · obtain ⟨d, hd⟩ := hkey.mp hadded
    obtain ⟨i, hindex, hget, herase⟩ := entries_erase (g := g) hd
    by_cases hremoved : type = .removed
    · subst hremoved
      refine ⟨⟨.removed, s.documentSnapshot doc, some i, none⟩, t.erase doc.key, ?_, ?_, ?_⟩
      · simp [ViewSnapshot.trackedChanges, hindex, documentChangeTypeForChange]
      · rw [Api.DocumentChange.replay_removed hget, herase]
      · exact fun k => t.getDocument_erase doc.key k
    · obtain ⟨j, hindex', hle, hinsert⟩ := entries_insert (g := g) habsent
      have htype : documentChangeTypeForChange ⟨doc, type⟩ = .modified := by
        cases type with
        | added => exact absurd rfl hadded
        | removed => exact absurd rfl hremoved
        | modified => rfl
        | metadata => rfl
      refine ⟨⟨.modified, s.documentSnapshot doc, some i, some j⟩, (t.erase doc.key).insert doc,
        ?_, ?_, ?_⟩
      · simp [ViewSnapshot.trackedChanges, hadded, hremoved, hindex, hindex', htype]
      · rw [herase] at hle
        rw [Api.DocumentChange.replay_modified hget hle, hinsert, herase]
        rfl
      · intro k
        rw [hput, if_neg hremoved]

def documentAfter (changes : List (DocumentViewChange V)) (old : Option (Document V))
    (k : DocumentKey) :
    Option (Document V) :=
  match changes.find? fun change => change.document.key = k with
  | none => old
  | some change => if change.type = .removed then none else some change.document

theorem trackedChanges_replay {changes : List (DocumentViewChange V)}
    {t : DocumentSet q.comparator}
    (hnodup : (changes.map fun change => change.document.key).Nodup)
    (hkey : ∀ change ∈ changes, change.type ≠ .added ↔
      ∃ d, t.getDocument change.document.key = some d) :
    ∃ (out : List (Api.DocumentChange V)) (t' : DocumentSet q.comparator),
      s.trackedChanges true t changes = .ok out ∧
        out.foldlM (Api.DocumentChange.replay g) (entries g t) = some (entries g t') ∧
        ∀ k, t'.getDocument k = documentAfter changes (t.getDocument k) k := by
  -- over the changes: a later one is of another document
  induction changes generalizing t with
  | nil => exact ⟨[], t, rfl, rfl, fun _ => rfl⟩
  | cons change changes ih =>
    rw [List.map_cons, List.nodup_cons] at hnodup
    obtain ⟨first, t₁, hfirst, hreplay₁, hget₁⟩ :=
      replay_tracked (g := g) (s := s) (hkey change List.mem_cons_self) changes
    have hne : ∀ c ∈ changes, c.document.key ≠ change.document.key :=
      fun c hc he => hnodup.1 (he ▸ List.mem_map_of_mem hc)
    obtain ⟨out, t', hout, hreplay, hget⟩ := ih (t := t₁) hnodup.2 fun c hc => by
      rw [hget₁, if_neg (hne c hc)]
      exact hkey c (List.mem_cons_of_mem _ hc)
    refine ⟨first :: out, t', ?_, ?_, fun k => ?_⟩
    · rw [hfirst, hout]
      rfl
    · rw [List.foldlM_cons, hreplay₁]
      exact hreplay
    · rw [hget, hget₁]
      unfold documentAfter
      by_cases hk : k = change.document.key
      · have hrest : changes.find? (fun c => c.document.key = k) = none := by
          rw [List.find?_eq_none]
          intro c hc
          simpa [hk] using hne c hc
        rw [List.find?_cons_of_pos (by simp [hk]), hrest, if_pos hk]
      · rw [List.find?_cons_of_neg (by simpa using Ne.symm hk), if_neg hk]

theorem trackedChanges_false (t : DocumentSet q.comparator)
    (changes : List (DocumentViewChange V)) : s.trackedChanges false t changes =
      s.trackedChanges true t (changes.filter fun change => change.type ≠ .metadata) := by
  induction changes generalizing t with
  | nil => rfl
  | cons change changes ih =>
    by_cases hmeta : change.type = .metadata
    · rw [List.filter_cons_of_neg (by simp [hmeta]), ← ih]
      simp [ViewSnapshot.trackedChanges, hmeta]
    · rw [List.filter_cons_of_pos (by simp [hmeta])]
      simp only [ViewSnapshot.trackedChanges, ih]
      simp [hmeta]

end Replay

/-- A snapshot with the changes from its old documents to its new ones, perhaps without those of
metadata. -/
def ViewSnapshot.Tells (s : ViewSnapshot q) : Prop :=
  ∃ changes, Reports s.oldDocuments s.documents changes ∧ s.documentChanges =
    if s.excludesMetadataChanges then changes.filter fun change => change.type ≠ .metadata
    else changes

section Reports
variable {c : DocumentComparator V} {old new : DocumentSet c}
  {changes : List (DocumentViewChange V)}

theorem Reports.nets_mem (h : Reports old new changes) {change : DocumentViewChange V}
    (hc : change ∈ changes) : Nets (old.getDocument change.document.key)
      (new.getDocument change.document.key) (some change) := by
  have hnets := h.nets change.document.key
  rwa [KeyedList.find?_eq_some_of_nodup h.keys_nodup hc] at hnets

theorem Nets.eq_after {old new : Option (Document V)} {change : DocumentViewChange V}
    (h : Nets old new (some change)) :
    new = if change.type = .removed then none else some change.document := by
  cases h <;> rfl

theorem Nets.content_eq {old new : Option (Document V)} {change : DocumentViewChange V}
    (h : Nets old new (some change)) (hmeta : change.type = .metadata) :
    old.map Document.content = new.map Document.content := by
  cases h with
  | metadata o d hkey hdata => simp [Document.content, hkey, hdata]
  | added => cases hmeta
  | removed => cases hmeta
  | modified => cases hmeta

theorem Nets.added_iff {old new : Option (Document V)} {change : DocumentViewChange V}
    (h : Nets old new (some change)) : change.type ≠ .added ↔ ∃ d, old = some d := by
  cases h <;> simp

theorem Reports.documentAfter_eq (h : Reports old new changes) (k : DocumentKey) :
    documentAfter changes (old.getDocument k) k = new.getDocument k := by
  have hnets := h.nets k
  unfold documentAfter
  cases hk : changes.find? (fun change => change.document.key = k) with
  | none =>
    rw [hk] at hnets
    exact hnets.eq_of_none.symm
  | some change =>
    rw [hk] at hnets
    exact hnets.eq_after.symm

theorem Reports.documentAfter_filter (h : Reports old new changes) (k : DocumentKey) :
    (documentAfter (changes.filter fun change => change.type ≠ .metadata) (old.getDocument k) k).map
      Document.content = (new.getDocument k).map Document.content := by
  have hnets := h.nets k
  cases hk : changes.find? (fun change => change.document.key = k) with
  | none =>
    have hrest : (changes.filter fun change => change.type ≠ .metadata).find?
        (fun change => change.document.key = k) = none := by
      rw [List.find?_eq_none] at hk ⊢
      exact fun change hc => hk change (List.mem_of_mem_filter hc)
    rw [hk] at hnets
    rw [documentAfter, hrest, hnets.eq_of_none]
  | some change =>
    obtain rfl : change.document.key = k := by simpa using List.find?_some hk
    have hc := List.mem_of_find?_eq_some hk
    rw [hk] at hnets
    by_cases hmeta : change.type = .metadata
    · have hrest : (changes.filter fun change => change.type ≠ .metadata).find?
          (fun c => c.document.key = change.document.key) = none := by
        rw [List.find?_eq_none]
        intro c hin hkey
        obtain ⟨hin, htype⟩ := List.mem_filter.mp hin
        have hsame : c = change := List.inj_on_of_nodup_map h.keys_nodup hin hc
          (by simpa using hkey)
        simp [hsame, hmeta] at htype
      rw [documentAfter, hrest]
      exact hnets.content_eq hmeta
    · have hkeys := h.keys_nodup.sublist
        ((List.filter_sublist (p := fun change => change.type ≠ .metadata)).map
          fun change : DocumentViewChange V => change.document.key)
      have hin : change ∈ changes.filter fun change => change.type ≠ .metadata :=
        List.mem_filter.mpr ⟨hc, by simpa using hmeta⟩
      rw [documentAfter, KeyedList.find?_eq_some_of_nodup hkeys hin]
      exact congrArg _ hnets.eq_after.symm

end Reports

theorem Reports.initial {old new : DocumentSet q.comparator} {changes : List (DocumentViewChange V)}
    (h : Reports old new changes) (hold : ∀ k, old.getDocument k = none) :
    (∀ change ∈ changes, change.type = .added) ∧
      changes.map DocumentViewChange.document = new.sortedSet := by
  have hadded : ∀ change ∈ changes, change.type = .added := by
    intro change hc
    have hnets := h.nets_mem hc
    rw [hold] at hnets
    by_contra hne
    obtain ⟨d, hd⟩ := hnets.added_iff.mp hne
    cases hd
  have hsorted : SortedList.Sorted q.comparator.compare
      (changes.map DocumentViewChange.document) := by
    refine List.pairwise_map.mpr (h.ordered.imp_of_mem fun {lhs rhs} hl hr hlt => ?_)
    simpa [changeOrder, compareLex, compareOn, hadded lhs hl, hadded rhs hr] using hlt
  refine ⟨hadded, hsorted.eq_of_mem_iff new.sorted fun d => ?_⟩
  rw [new.mem_iff, ← h.documentAfter_eq, hold, List.mem_map]
  constructor
  · rintro ⟨change, hc, rfl⟩
    rw [documentAfter, KeyedList.find?_eq_some_of_nodup h.keys_nodup hc]
    simp [hadded change hc]
  · intro hd
    unfold documentAfter at hd
    cases hk : changes.find? (fun change => change.document.key = d.key) with
    | none =>
      rw [hk] at hd
      cases hd
    | some change =>
      have hc := List.mem_of_find?_eq_some hk
      rw [hk] at hd
      exact ⟨change, hc, by simpa [hadded change hc] using hd⟩

section Contents
variable {c : DocumentComparator V}

def contents (documents : DocumentSet c) : List (DocumentKey × V) :=
  documents.sortedSet.map Document.content

theorem DocumentSet.getDocument_of_size {documents : DocumentSet c} (h : documents.size = 0)
    (k : DocumentKey) : documents.getDocument k = none := by
  rw [documents.size_eq_length, List.length_eq_zero_iff] at h
  rw [Option.eq_none_iff_forall_ne_some]
  intro d hd
  have hmem := DocumentSet.mem_of_getDocument hd
  rw [h] at hmem
  cases hmem

end Contents

section Replays
variable {s : ViewSnapshot q} {changes : List (DocumentViewChange V)} {γ : Type}

/-- What is handed out is replayed over data and over whole documents. -/
theorem replayed_both {t t' : DocumentSet q.comparator}
    {handed : Except String (List (Api.DocumentChange V))}
    (h : ∀ {γ : Type} (g : Document V → γ), ∃ out, handed = .ok out ∧
      out.foldlM (Api.DocumentChange.replay g) (entries g t) = some (entries g t')) :
    ∃ out, handed = .ok out ∧
      out.foldlM (Api.DocumentChange.replay Document.data) (contents t) = some (contents t') ∧
      out.foldlM (Api.DocumentChange.replay id) (entries id t) = some (entries id t') := by
  obtain ⟨out, hout, hdata⟩ := h Document.data
  obtain ⟨out', hout', hid⟩ := h id
  obtain rfl := Except.ok.inj (hout.symm.trans hout')
  exact ⟨out, hout, hdata, hid⟩

theorem Reports.replays_initial (h : Reports s.oldDocuments s.documents changes)
    (hsize : s.oldDocuments.size = 0) (g : Document V → γ) :
    ∃ out, s.initialChanges none 0 changes = .ok out ∧
      out.foldlM (Api.DocumentChange.replay g) (entries g s.oldDocuments) =
        some (entries g s.documents) := by
  obtain ⟨hadded, hdocs⟩ := h.initial (DocumentSet.getDocument_of_size hsize)
  have hnil : s.oldDocuments.sortedSet = [] := by
    rwa [s.oldDocuments.size_eq_length, List.length_eq_zero_iff] at hsize
  have hsorted : SortedList.Sorted q.comparator.compare
      (changes.map DocumentViewChange.document) := hdocs ▸ s.documents.sorted
  have hlast : ∀ d, (none : Option (Document V)) = some d → ∀ change ∈ changes,
      q.comparator.compare d change.document = .lt := fun d hd => by cases hd
  obtain ⟨out, hout, hreplay⟩ := initialChanges_replay (g := g) (s := s) hadded hsorted hlast []
  refine ⟨out, hout, ?_⟩
  rw [entries, hnil, List.map_nil, hreplay, entries, ← hdocs, List.map_map]
  rfl

theorem Reports.added_iff (h : Reports s.oldDocuments s.documents changes)
    {l : List (DocumentViewChange V)} (hl : l.Sublist changes) : ∀ change ∈ l,
      change.type ≠ .added ↔ ∃ d, s.oldDocuments.getDocument change.document.key = some d :=
  fun _ hc => (h.nets_mem (hl.subset hc)).added_iff

theorem Reports.replays_tracked (h : Reports s.oldDocuments s.documents changes)
    (g : Document V → γ) :
    ∃ out, s.trackedChanges true s.oldDocuments changes = .ok out ∧
      out.foldlM (Api.DocumentChange.replay g) (entries g s.oldDocuments) =
        some (entries g s.documents) := by
  obtain ⟨out, t', hout, hreplay, hget⟩ := trackedChanges_replay (g := g) (s := s)
    h.keys_nodup (h.added_iff (List.Sublist.refl _))
  obtain rfl : t' = s.documents := by
    apply DocumentSet.ext_getDocument
    intro k
    rw [hget, h.documentAfter_eq]
  exact ⟨out, hout, hreplay⟩

/-- Without the changes of metadata, only the contents are replayed. -/
theorem Reports.replays_filtered (h : Reports s.oldDocuments s.documents changes) :
    ∃ out, s.trackedChanges false s.oldDocuments changes = .ok out ∧
      out.foldlM (Api.DocumentChange.replay Document.data) (contents s.oldDocuments) =
        some (contents s.documents) := by
  have hsub := List.filter_sublist (p := fun change : DocumentViewChange V =>
    change.type ≠ .metadata) (l := changes)
  obtain ⟨out, t', hout, hreplay, hget⟩ := trackedChanges_replay (g := Document.data) (s := s)
    (h.keys_nodup.sublist (hsub.map fun change => change.document.key)) (h.added_iff hsub)
  have hcontents : contents t' = contents s.documents := by
    apply DocumentSet.map_content_eq
    intro k
    rw [hget, h.documentAfter_filter]
  refine ⟨out, ?_, hcontents ▸ hreplay⟩
  rw [trackedChanges_false, hout]

theorem ViewSnapshot.Tells.replays (h : s.Tells) (includeMetadataChanges : Bool)
    (hinclude : includeMetadataChanges → s.excludesMetadataChanges = false) :
    ∃ out, s.forEachChange includeMetadataChanges = .ok out ∧
      out.foldlM (Api.DocumentChange.replay Document.data) (contents s.oldDocuments) =
        some (contents s.documents) ∧
      (includeMetadataChanges → out.foldlM (Api.DocumentChange.replay id)
        (entries id s.oldDocuments) = some (entries id s.documents)) := by
  obtain ⟨changes, hreports, hchanges⟩ := h
  have hasked : (includeMetadataChanges && s.excludesMetadataChanges) = false := by
    cases hi : includeMetadataChanges with
    | false => rfl
    | true => exact hinclude hi
  unfold ViewSnapshot.forEachChange
  rw [if_neg (by simp [hasked])]
  by_cases hsize : s.oldDocuments.size = 0
  · -- a first snapshot has additions only, so that none of its changes is left out
    have hadded := (hreports.initial (DocumentSet.getDocument_of_size hsize)).1
    have hall : changes.filter (fun change => change.type ≠ .metadata) = changes := by
      rw [List.filter_eq_self]
      intro change hc
      simp [hadded change hc]
    obtain rfl : s.documentChanges = changes := by
      rw [hchanges, hall, ite_self]
    rw [if_pos hsize]
    obtain ⟨out, hout, hdata, hid⟩ := replayed_both (hreports.replays_initial hsize)
    exact ⟨out, hout, hdata, fun _ => hid⟩
  · rw [if_neg hsize]
    cases includeMetadataChanges with
    | true =>
      obtain rfl : s.documentChanges = changes := by
        rw [hchanges, hinclude rfl, if_neg (by simp)]
      obtain ⟨out, hout, hdata, hid⟩ := replayed_both hreports.replays_tracked
      exact ⟨out, hout, hdata, fun _ => hid⟩
    | false =>
      have hfilter : s.documentChanges.filter (fun change => change.type ≠ .metadata) =
          changes.filter fun change => change.type ≠ .metadata := by
        rw [hchanges]
        split_ifs <;> simp
      obtain ⟨out, hout, hdata⟩ := hreports.replays_filtered
      refine ⟨out, ?_, hdata, by simp⟩
      rw [trackedChanges_false, hfilter, ← trackedChanges_false, hout]

end Replays

theorem DocumentSet.find?_key {c : DocumentComparator V} (documents : DocumentSet c)
    (k : DocumentKey) : documents.sortedSet.find? (fun d => d.key = k) =
        documents.getDocument k := by
  cases hk : documents.getDocument k with
  | none =>
    rw [List.find?_eq_none]
    intro d hd hkey
    rw [documents.mem_iff, of_decide_eq_true hkey, hk] at hd
    cases hd
  | some d =>
    rw [← documents.getDocument_key hk]
    exact KeyedList.find?_eq_some_of_nodup documents.keys_nodup (DocumentSet.mem_of_getDocument hk)

theorem tells_fromInitialDocuments (documents : DocumentSet q.comparator)
    (mutatedKeys : DocumentKeySet) (fromCache excludesMetadataChanges : Bool) :
    (ViewSnapshot.fromInitialDocuments documents mutatedKeys fromCache
      excludesMetadataChanges).Tells := by
  refine ⟨documents.sortedSet.map fun doc => ⟨doc, .added⟩, ⟨?_, ?_, fun k => ?_⟩, ?_⟩
  · refine List.pairwise_map.mpr (documents.sorted.imp fun {lhs rhs} hlt => ?_)
    simpa [changeOrder, compareLex, compareOn] using hlt
  · rw [List.map_map]
    exact documents.keys_nodup
  · change Nets none (documents.getDocument k) _
    have hfind : (documents.sortedSet.map fun doc => (⟨doc, .added⟩ : DocumentViewChange V)).find?
        (fun change => change.document.key = k) =
        (documents.getDocument k).map fun doc => ⟨doc, .added⟩ := by
      rw [List.find?_map, ← documents.find?_key k]
      rfl
    rw [hfind]
    cases documents.getDocument k with
    | none => exact .same none
    | some d => exact .added d
  · change documents.sortedSet.map _ = _
    have hall : (documents.sortedSet.map fun doc => (⟨doc, .added⟩ : DocumentViewChange V)).filter
        (fun change => change.type ≠ .metadata) =
        documents.sortedSet.map fun doc => ⟨doc, .added⟩ := by
      rw [List.filter_eq_self]
      intro change hc
      obtain ⟨d, -, rfl⟩ := List.mem_map.mp hc
      rfl
    rw [hall, ite_self]

def ViewSnapshot.withoutMetadataChanges (s : ViewSnapshot q) : ViewSnapshot q :=
  { s with
    documentChanges := s.documentChanges.filter fun change => change.type ≠ .metadata
    excludesMetadataChanges := true }

theorem Reported.tells_snapshot {old new : Shown q} {s : ViewSnapshot q}
    (h : Reported old s new) : s.Tells ∧ s.withoutMetadataChanges.Tells := by
  have hchanges := h.changes
  rw [← h.oldDocuments, ← h.documents] at hchanges
  exact ⟨⟨s.documentChanges, hchanges, by rw [h.excludes]; rfl⟩,
    ⟨s.documentChanges, hchanges, rfl⟩⟩

section Update
variable {γ : Type} (g : Document V → γ)

def ViewSnapshot.update (includeMetadataChanges : Bool) (l : List (DocumentKey × γ))
    (s : ViewSnapshot q) : Option (List (DocumentKey × γ)) :=
  match s.forEachChange includeMetadataChanges with
  | .error _ => none
  | .ok changes => changes.foldlM (Api.DocumentChange.replay g) l

end Update

theorem ViewSnapshot.Tells.update {s : ViewSnapshot q} (h : s.Tells) {includeMetadataChanges : Bool}
    (hinclude : includeMetadataChanges → s.excludesMetadataChanges = false) :
    s.update Document.data includeMetadataChanges (contents s.oldDocuments) =
      some (contents s.documents) := by
  obtain ⟨out, hout, hreplay, -⟩ := h.replays includeMetadataChanges hinclude
  rw [ViewSnapshot.update, hout]
  exact hreplay

theorem ViewSnapshot.Tells.update_documents {s : ViewSnapshot q} (h : s.Tells)
    (hincludes : s.excludesMetadataChanges = false) :
    s.update id true (entries id s.oldDocuments) = some (entries id s.documents) := by
  obtain ⟨out, hout, -, hreplay⟩ := h.replays true fun _ => hincludes
  rw [ViewSnapshot.update, hout]
  exact hreplay rfl

theorem ViewSnapshot.Tells.contents_eq {s : ViewSnapshot q} (h : s.Tells)
    (hnil : s.documentChanges = []) : contents s.oldDocuments = contents s.documents := by
  obtain ⟨out, hout, hreplay, -⟩ := h.replays false (by simp)
  have hnone : s.forEachChange false = .ok [] := by
    unfold ViewSnapshot.forEachChange
    rw [hnil]
    split_ifs
    · contradiction
    · rfl
    · rfl
  rw [hnone] at hout
  obtain rfl := Except.ok.inj hout
  exact Option.some.inj hreplay

theorem update_of_run {γ : Type} {g : Document V → γ} {includeMetadataChanges : Bool}
    {shown shown' : Shown q} {told : List (ViewSnapshot q)}
    (h : Runs.Run Reported shown told shown')
    (hupdate : ∀ (old : Shown q) snapshot new, Reported old snapshot new →
      snapshot.update g includeMetadataChanges (entries g old.documents) =
        some (entries g new.documents)) :
    told.foldlM (ViewSnapshot.update g includeMetadataChanges) (entries g shown.documents) =
      some (entries g shown'.documents) := by
  induction h with
  | start => rfl
  | @step told shown₁ shown₂ snapshot _ hreported ih =>
    rw [List.foldlM_append, ih, Option.bind_eq_bind, Option.bind_some, List.foldlM_cons,
      hupdate _ _ _ hreported]
    rfl

/-- Whoever keeps a list of the documents, and applies to it the changes of the snapshots of a view
one by one at their indexes, has the documents of the view in their order; with the changes of
metadata they have them with version and state. No index is ever missing. -/
theorem snapshots_replay [DecidableEq V] {v₀ v : View q} {out₀ : ViewChange q}
    {outs : List (ViewChange q)} (h : Started v₀ out₀) (hrun : Runs.Run ViewStep v₀ outs v) :
    let told := (out₀ :: outs).filterMap ViewChange.snapshot
    (∀ includeMetadataChanges : Bool,
      told.foldlM (ViewSnapshot.update Document.data includeMetadataChanges) [] =
        some (contents v.documentSet)) ∧
      told.foldlM (ViewSnapshot.update id true) [] = some (entries id v.documentSet) := by
  have htold := h.told hrun
  refine ⟨fun includeMetadataChanges => update_of_run htold fun old snapshot new hs => ?_,
    update_of_run htold fun old snapshot new hs => ?_⟩
  · rw [← hs.oldDocuments, ← hs.documents]
    exact hs.tells_snapshot.1.update fun _ => hs.excludes
  · rw [← hs.oldDocuments, ← hs.documents]
    exact hs.tells_snapshot.1.update_documents hs.excludes

theorem listing_replayed : ([emptyView.2, listingView.2].filterMap ViewChange.snapshot).foldlM
    (ViewSnapshot.update Document.data false) [] = some [(listedProperty.key, 0)] := by
  have hcontents : contents listingView.1.documentSet = [(listedProperty.key, 0)] := by decide
  rw [← hcontents]
  exact (snapshots_replay started_empty listing_run).1 false

end Firestore
