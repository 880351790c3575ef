import Std.Data.ExtTreeMap
import Std.Data.ExtTreeSet
import Zeenoc.Firestore.ResourcePath
import Zeenoc.Library.SortedList

/-! Keys, documents and ordered sets of documents in the client's local model: `document_key.cc`,
`maybe_document.h`, `document.cc` and `document_set.cc`. -/

namespace Firestore

structure DocumentKey where
  path : ResourcePath
  isDocumentKey : path.length % 2 = 0
  deriving DecidableEq

namespace DocumentKey

instance : Ord DocumentKey := ⟨fun a b => compare a.path b.path⟩

theorem ext_path {a b : DocumentKey} (h : a.path = b.path) : a = b := by
  cases a; cases b; simpa using h

instance : Std.TransOrd DocumentKey := SortedList.transCmp_comap compare path

instance : Std.LawfulEqOrd DocumentKey where
  compare_self {a} := Std.ReflOrd.compare_self (a := a.path)
  eq_of_compare {a b} h := ext_path (Std.LawfulEqOrd.eq_of_compare (a := a.path) (b := b.path) h)

def hasCollectionId (key : DocumentKey) (collectionId : String) : Bool :=
  2 ≤ key.path.length && key.path[key.path.length - 2]? = some collectionId

end DocumentKey

/-- Seconds and nanoseconds as one number; `none` is the version before all others. -/
abbrev SnapshotVersion := ℕ

def SnapshotVersion.none : SnapshotVersion := 0

inductive DocumentState where
  | localMutations
  | committedMutations
  | synced
  deriving DecidableEq

/-- `V` stands for `ObjectValue`, which this part of the client only compares. -/
structure Document (V : Type) where
  key : DocumentKey
  data : V
  version : SnapshotVersion
  documentState : DocumentState
  deriving DecidableEq

inductive MaybeDocument (V : Type) where
  | document (d : Document V)
  | noDocument (key : DocumentKey) (version : SnapshotVersion) (hasCommittedMutations : Bool)
  | unknownDocument (key : DocumentKey) (version : SnapshotVersion)
  deriving DecidableEq

abbrev DocumentMap (V : Type) := Std.ExtTreeMap DocumentKey (Document V)
abbrev MaybeDocumentMap (V : Type) := Std.ExtTreeMap DocumentKey (MaybeDocument V)
abbrev DocumentKeySet := Std.ExtTreeSet DocumentKey

variable {V : Type}

namespace Document

def hasLocalMutations (d : Document V) : Bool := d.documentState = .localMutations

def hasCommittedMutations (d : Document V) : Bool := d.documentState = .committedMutations

def content (d : Document V) : DocumentKey × V := (d.key, d.data)

/-- What of a document does not depend on its version. -/
def unversioned (d : Document V) : DocumentKey × V × DocumentState :=
  (d.key, d.data, d.documentState)

theorem not_local_of_committed {d : Document V} (h : d.hasCommittedMutations) :
    d.hasLocalMutations = false := by
  have hstate : d.documentState = .committedMutations := by simpa [hasCommittedMutations] using h
  simp [hasLocalMutations, hstate]

end Document

namespace MaybeDocument

def key : MaybeDocument V → DocumentKey
  | document d => d.key
  | noDocument key _ _ => key
  | unknownDocument key _ => key

def version : MaybeDocument V → SnapshotVersion
  | document d => d.version
  | noDocument _ version _ => version
  | unknownDocument _ version => version

def hasPendingWrites : MaybeDocument V → Bool
  | document d => d.hasLocalMutations || d.hasCommittedMutations
  | noDocument _ _ hasCommittedMutations => hasCommittedMutations
  | unknownDocument _ _ => true

def document? : MaybeDocument V → Option (Document V)
  | document d => some d
  | _ => none

end MaybeDocument

/-- An order of documents by key and data. Documents of different keys differ in it; two versions
of one document may. -/
structure DocumentComparator (V : Type) where
  order : DocumentKey × V → DocumentKey × V → Ordering
  trans : Std.TransCmp order
  key_eq : ∀ {a b}, order a b = .eq → a.1 = b.1

namespace DocumentComparator
variable (c : DocumentComparator V)

def compare (a b : Document V) : Ordering := c.order (a.key, a.data) (b.key, b.data)

instance : Std.TransCmp c.compare where
  eq_swap {a b} := c.trans.eq_swap (a := (a.key, a.data)) (b := (b.key, b.data))
  isLE_trans {a b d} := c.trans.isLE_trans (a := (a.key, a.data)) (b := (b.key, b.data))
    (c := (d.key, d.data))

variable {c}

theorem compare_ne_eq {a b : Document V} (h : a.key ≠ b.key) : c.compare a b ≠ .eq :=
  fun he => h (c.key_eq he)

end DocumentComparator

structure DocumentSet (c : DocumentComparator V) where
  index : DocumentMap V
  sortedSet : List (Document V)
  sorted : SortedList.Sorted c.compare sortedSet
  mem_sortedSet : ∀ d : Document V, d ∈ sortedSet ↔ index[d.key]? = some d
  key_eq : ∀ {k : DocumentKey} {d : Document V}, index[k]? = some d → d.key = k

namespace DocumentSet
variable {c : DocumentComparator V}

def empty : DocumentSet c where
  index := ∅
  sortedSet := []
  sorted := SortedList.sorted_nil
  mem_sortedSet d := by simp
  key_eq h := by simp at h

def getDocument (s : DocumentSet c) (k : DocumentKey) : Option (Document V) := s.index[k]?

def size (s : DocumentSet c) : ℕ := s.index.size

def getFirstDocument (s : DocumentSet c) : Option (Document V) := s.sortedSet.head?

def getLastDocument (s : DocumentSet c) : Option (Document V) := s.sortedSet.getLast?

def indexOf (s : DocumentSet c) (k : DocumentKey) : Option ℕ :=
  (s.getDocument k).bind fun d => SortedList.findIndex c.compare d s.sortedSet

theorem getDocument_key {s : DocumentSet c} {k : DocumentKey} {d : Document V}
    (h : s.getDocument k = some d) : d.key = k := s.key_eq h

theorem mem_iff (s : DocumentSet c) (d : Document V) :
    d ∈ s.sortedSet ↔ s.getDocument d.key = some d := s.mem_sortedSet d

theorem mem_of_getDocument {s : DocumentSet c} {k : DocumentKey} {d : Document V}
    (h : s.getDocument k = some d) : d ∈ s.sortedSet := by
  rw [s.mem_iff, s.getDocument_key h, h]

def eraseDocument (s : DocumentSet c) (d : Document V) (hd : s.getDocument d.key = some d) :
    DocumentSet c where
  index := s.index.erase d.key
  sortedSet := SortedList.erase c.compare d s.sortedSet
  sorted := s.sorted.erase d
  mem_sortedSet x := by
    rw [s.sorted.mem_erase, s.mem_iff, Std.ExtTreeMap.getElem?_erase]
    by_cases hx : d.key = x.key
    · have hsame : s.getDocument x.key = some d := hx ▸ hd
      rw [hsame, if_pos (by simp [hx])]
      simp only [Option.some.injEq, reduceCtorEq, iff_false, not_and, not_not]
      rintro rfl
      exact Std.ReflCmp.compare_self
    · rw [if_neg (by simpa using hx)]
      exact and_iff_left (DocumentComparator.compare_ne_eq (Ne.symm hx))
  key_eq {k x} hx := by
    rw [Std.ExtTreeMap.getElem?_erase] at hx
    split_ifs at hx
    exact s.key_eq hx

def erase (s : DocumentSet c) (k : DocumentKey) : DocumentSet c :=
  match h : s.getDocument k with
  | none => s
  | some d => s.eraseDocument d (by rw [s.getDocument_key h, h])

theorem getDocument_erase (s : DocumentSet c) (k k' : DocumentKey) :
    (s.erase k).getDocument k' = if k' = k then none else s.getDocument k' := by
  unfold erase
  split
  · next h =>
    by_cases hk : k' = k
    · rw [if_pos hk, hk, h]
    · rw [if_neg hk]
  · next d h =>
    have hkey := s.getDocument_key h
    change (s.index.erase d.key)[k']? = _
    rw [Std.ExtTreeMap.getElem?_erase, hkey]
    by_cases hk : k' = k
    · simp [hk]
    · rw [if_neg (by simpa using Ne.symm hk), if_neg hk]
      rfl

/-- `insert`, into a set without the document's key. -/
def insertNew (s : DocumentSet c) (d : Document V) (hd : s.getDocument d.key = none) :
    DocumentSet c where
  index := s.index.insert d.key d
  sortedSet := SortedList.insert c.compare d s.sortedSet
  sorted := by
    apply s.sorted.insert
    intro b hb
    apply DocumentComparator.compare_ne_eq
    intro hkey
    rw [s.mem_iff, ← hkey, hd] at hb
    cases hb
  mem_sortedSet x := by
    rw [SortedList.mem_insert, s.mem_iff, Std.ExtTreeMap.getElem?_insert]
    by_cases hx : d.key = x.key
    · have hnone : s.getDocument x.key = none := hx ▸ hd
      rw [hnone, if_pos (by simp [hx])]
      simp [eq_comm]
    · have hne : x ≠ d := fun he => hx (by rw [he])
      rw [if_neg (by simpa using hx)]
      simp only [hne, false_or]
      rfl
  key_eq {k x} hx := by
    rw [Std.ExtTreeMap.getElem?_insert] at hx
    split_ifs at hx with hk
    · obtain rfl := Option.some.inj hx
      exact Std.LawfulEqCmp.eq_of_compare hk
    · exact s.key_eq hx

def insert (s : DocumentSet c) (d : Document V) : DocumentSet c :=
  (s.erase d.key).insertNew d (by rw [getDocument_erase, if_pos rfl])

theorem getDocument_insert (s : DocumentSet c) (d : Document V) (k : DocumentKey) :
    (s.insert d).getDocument k = if k = d.key then some d else s.getDocument k := by
  change ((s.erase d.key).index.insert d.key d)[k]? = _
  rw [Std.ExtTreeMap.getElem?_insert]
  by_cases hk : k = d.key
  · simp [hk]
  · rw [if_neg (by simpa using Ne.symm hk), if_neg hk]
    exact (s.getDocument_erase d.key k).trans (if_neg hk)

theorem sortedSet_eq_of_getDocument {s t : DocumentSet c}
    (h : ∀ k, s.getDocument k = t.getDocument k) : s.sortedSet = t.sortedSet :=
  s.sorted.eq_of_mem_iff t.sorted fun d => by rw [s.mem_iff, t.mem_iff, h]

theorem ext_getDocument {s t : DocumentSet c} (h : ∀ k, s.getDocument k = t.getDocument k) :
    s = t := by
  have hindex : s.index = t.index := Std.ExtTreeMap.ext_getElem? h
  have hset := sortedSet_eq_of_getDocument h
  cases s
  cases t
  subst hindex
  subst hset
  rfl

theorem getDocument_eq_of_sortedSet {s t : DocumentSet c}
    (h : s.sortedSet = t.sortedSet) (k : DocumentKey) : s.getDocument k = t.getDocument k := by
  apply Option.ext
  intro d
  constructor
  · intro hd
    have hmem := mem_of_getDocument hd
    rw [h, t.mem_iff, s.getDocument_key hd] at hmem
    exact hmem
  · intro hd
    have hmem := mem_of_getDocument hd
    rw [← h, s.mem_iff, t.getDocument_key hd] at hmem
    exact hmem

theorem map_content_eq {s t : DocumentSet c}
    (h : ∀ k, (s.getDocument k).map Document.content = (t.getDocument k).map Document.content) :
    s.sortedSet.map Document.content = t.sortedSet.map Document.content := by
  have := c.trans
  have hsorted : ∀ u : DocumentSet c, SortedList.Sorted c.order
      (u.sortedSet.map Document.content) :=
    fun u => List.pairwise_map.mpr u.sorted
  have hsub : ∀ {s t : DocumentSet c},
      (∀ k, (s.getDocument k).map Document.content = (t.getDocument k).map Document.content) →
      ∀ x ∈ s.sortedSet.map Document.content, x ∈ t.sortedSet.map Document.content := by
    intro s t h x hx
    obtain ⟨d, hd, rfl⟩ := List.mem_map.mp hx
    have hd' := h d.key
    rw [(s.mem_iff d).mp hd, Option.map_some, eq_comm, Option.map_eq_some_iff] at hd'
    obtain ⟨d', hget, he⟩ := hd'
    exact List.mem_map.mpr ⟨d', mem_of_getDocument hget, he⟩
  exact (hsorted s).eq_of_mem_iff (hsorted t) fun x => ⟨hsub h x, hsub (fun k => (h k).symm) x⟩

theorem keys_nodup (s : DocumentSet c) : (s.sortedSet.map Document.key).Nodup := by
  apply List.Nodup.map_on _ s.sorted.nodup
  intro a ha b hb hab
  rw [s.mem_iff] at ha hb
  rw [hab, hb] at ha
  exact (Option.some.inj ha).symm

theorem size_eq_length (s : DocumentSet c) : s.size = s.sortedSet.length := by
  have hkeys : ∀ k, k ∈ s.index.keys ↔ k ∈ s.sortedSet.map Document.key := by
    intro k
    rw [Std.ExtTreeMap.mem_keys, Std.ExtTreeMap.mem_iff_isSome_getElem?, Option.isSome_iff_exists,
      List.mem_map]
    constructor
    · rintro ⟨d, hd⟩
      exact ⟨d, mem_of_getDocument hd, s.key_eq hd⟩
    · rintro ⟨d, hd, rfl⟩
      exact ⟨d, (s.mem_sortedSet d).mp hd⟩
  have hperm := (List.perm_ext_iff_of_nodup Std.ExtTreeMap.nodup_keys s.keys_nodup).mpr hkeys
  rw [size, ← Std.ExtTreeMap.length_keys, hperm.length_eq, List.length_map]

section Positions
variable {s : DocumentSet c} {k : DocumentKey} {d : Document V}

theorem sortedSet_erase (h : s.getDocument k = some d) :
    (s.erase k).sortedSet = SortedList.erase c.compare d s.sortedSet := by
  unfold erase
  split
  · next hnone =>
    rw [h] at hnone
    cases hnone
  · next d' hd' =>
    rw [h] at hd'
    obtain rfl := Option.some.inj hd'
    rfl

theorem indexOf_eq_some (h : s.getDocument k = some d) : ∃ i, s.indexOf k = some i ∧
    s.sortedSet[i]? = some d ∧ (s.erase k).sortedSet = s.sortedSet.eraseIdx i := by
  have hmem := mem_of_getDocument h
  obtain ⟨i, hi⟩ := SortedList.findIndex_of_mem c.compare hmem
  refine ⟨i, ?_, s.sorted.getElem?_findIndex hmem hi, ?_⟩
  · rw [indexOf, h, Option.bind_some, hi]
  · rw [sortedSet_erase h, SortedList.erase_eq_eraseIdx hi]

theorem indexOf_insert (s : DocumentSet c) (d : Document V) :
    ∃ i, (s.insert d).indexOf d.key = some i ∧ i ≤ (s.erase d.key).sortedSet.length ∧
      (s.insert d).sortedSet = (s.erase d.key).sortedSet.insertIdx i d := by
  have hget : (s.insert d).getDocument d.key = some d := by rw [getDocument_insert, if_pos rfl]
  obtain ⟨i, hi⟩ := SortedList.findIndex_of_mem c.compare (mem_of_getDocument hget)
  have hne : ∀ b ∈ (s.erase d.key).sortedSet, c.compare d b ≠ .eq := by
    intro b hb
    apply DocumentComparator.compare_ne_eq
    intro hkey
    rw [mem_iff, getDocument_erase, if_pos hkey.symm] at hb
    cases hb
  obtain ⟨hle, heq⟩ := (s.erase d.key).sorted.insert_eq_insertIdx hne hi
  refine ⟨i, ?_, hle, heq⟩
  rw [indexOf, hget, Option.bind_some, hi]

theorem getDocument_getLast (h : s.getLastDocument = some d) : s.getDocument d.key = some d :=
  (s.mem_iff d).mp (List.mem_of_getLast? h)

theorem getDocument_getFirst (h : s.getFirstDocument = some d) : s.getDocument d.key = some d :=
  (s.mem_iff d).mp (List.mem_of_mem_head? h)

theorem sortedSet_erase_last (h : s.getLastDocument = some d) :
    (s.erase d.key).sortedSet = s.sortedSet.dropLast := by
  obtain ⟨i, -, hget, herase⟩ := indexOf_eq_some (getDocument_getLast h)
  have hlast : s.sortedSet[s.sortedSet.length - 1]? = some d := by
    rw [← List.getLast?_eq_getElem?]
    exact h
  obtain ⟨hi, hid⟩ := List.getElem?_eq_some_iff.mp hget
  obtain ⟨hl, hld⟩ := List.getElem?_eq_some_iff.mp hlast
  obtain rfl : i = s.sortedSet.length - 1 :=
    s.sorted.nodup.getElem_inj_iff.mp (hid.trans hld.symm)
  rw [herase, List.eraseIdx_length_sub_one]

theorem sortedSet_erase_first (h : s.getFirstDocument = some d) :
    (s.erase d.key).sortedSet = s.sortedSet.tail := by
  obtain ⟨i, -, hget, herase⟩ := indexOf_eq_some (getDocument_getFirst h)
  have hfirst : s.sortedSet[0]? = some d := by
    rw [← List.head?_eq_getElem?]
    exact h
  obtain ⟨hi, hid⟩ := List.getElem?_eq_some_iff.mp hget
  obtain ⟨hl, hld⟩ := List.getElem?_eq_some_iff.mp hfirst
  obtain rfl : i = 0 := s.sorted.nodup.getElem_inj_iff.mp (hid.trans hld.symm)
  rw [herase, List.eraseIdx_zero]

end Positions
end DocumentSet
end Firestore
