import Zeenoc.Firestore.LimboDocuments
import Zeenoc.Firestore.ViewChanges
import Zeenoc.Library.KeyedList
import Zeenoc.Library.Runs

/-! Runs of a view: the local store changes, targets change, the connection goes; after each what
the view reports is the difference. -/

namespace Firestore
variable {V : Type} {q : Query V}

instance transCmp_changeOrder (c : DocumentComparator V) : Std.TransCmp (changeOrder c) := by
  have hdocs : Std.TransCmp fun lhs rhs : DocumentViewChange V =>
      c.compare lhs.document rhs.document :=
    SortedList.transCmp_comap c.compare DocumentViewChange.document
  exact inferInstanceAs (Std.TransCmp (compareLex _ _))

theorem changeOrder_ne_eq {c : DocumentComparator V} {lhs rhs : DocumentViewChange V}
    (h : lhs.document.key ≠ rhs.document.key) : changeOrder c lhs rhs ≠ .eq :=
  fun he => DocumentComparator.compare_ne_eq h (Ordering.then_eq_eq.mp he).2

/-- A list of changes, in the order of their kinds and documents and with at most one for each
document, that says how to get from some documents to others. -/
structure Reports {c : DocumentComparator V} (old new : DocumentSet c)
    (changes : List (DocumentViewChange V)) : Prop where
  ordered : SortedList.Sorted (changeOrder c) changes
  keys_nodup : (changes.map fun change => change.document.key).Nodup
  nets : ∀ k, Nets (old.getDocument k) (new.getDocument k)
    (changes.find? fun change => change.document.key = k)

theorem Nets.key_eq {old cur : Option (Document V)} {change : DocumentViewChange V}
    (h : Nets old cur (some change)) {k : DocumentKey} (hold : ∀ d, old = some d → d.key = k)
    (hcur : ∀ d, cur = some d → d.key = k) : change.document.key = k := by
  cases h with
  | added d => exact hcur d rfl
  | removed o d hkey => exact hkey ▸ hold o rfl
  | modified o d => exact hcur d rfl
  | metadata o d => exact hcur d rfl

theorem Accounts.reports {base : DocumentSet q.comparator} {acc : ViewDocumentChanges q}
    (h : Accounts base acc) : Reports base acc.documentSet
      (sortChanges q.comparator acc.changeSet.getChanges) := by
  have hkey : ∀ (k : DocumentKey) change, acc.changeSet[k]? = some change →
      change.document.key = k := by
    intro k change hk
    have hnets := h.nets k
    rw [hk] at hnets
    exact hnets.key_eq (fun d hd => base.getDocument_key hd)
      fun d hd => acc.documentSet.getDocument_key hd
  have hmem : ∀ e ∈ acc.changeSet.toList, e.2.document.key = e.1 := fun e he =>
    hkey e.1 e.2 (Std.ExtTreeMap.mem_toList_iff_getElem?_eq_some.mp he)
  have hkeys : acc.changeSet.getChanges.map (fun change => change.document.key) =
      acc.changeSet.keys := by
    unfold DocumentViewChangeSet.getChanges
    rw [List.map_map, ← Std.ExtTreeMap.map_fst_toList_eq_keys]
    exact List.map_congr_left hmem
  have hperm : (sortChanges q.comparator acc.changeSet.getChanges).Perm
      acc.changeSet.getChanges := List.mergeSort_perm _ _
  have hnodup : ((sortChanges q.comparator acc.changeSet.getChanges).map
      fun change => change.document.key).Nodup := by
    rw [(hperm.map _).nodup_iff, hkeys]
    exact Std.ExtTreeMap.nodup_keys
  refine ⟨?_, hnodup, fun k => ?_⟩
  · have htrans : ∀ a b d, (changeOrder q.comparator a b).isLE →
        (changeOrder q.comparator b d).isLE → (changeOrder q.comparator a d).isLE :=
      fun _ _ _ => Std.TransCmp.isLE_trans
    have htotal : ∀ a b, ((changeOrder q.comparator a b).isLE ||
        (changeOrder q.comparator b a).isLE) = true := by
      intro a b
      rw [@Std.OrientedCmp.eq_swap _ (changeOrder q.comparator) _ b]
      cases changeOrder q.comparator a b <;> rfl
    have hle : (sortChanges q.comparator acc.changeSet.getChanges).Pairwise fun lhs rhs =>
        (changeOrder q.comparator lhs rhs).isLE := List.pairwise_mergeSort htrans htotal _
    -- no two changes compare equal: their keys differ
    have hne : (sortChanges q.comparator acc.changeSet.getChanges).Pairwise fun lhs rhs =>
        changeOrder q.comparator lhs rhs ≠ .eq :=
      (List.pairwise_map.mp hnodup).imp changeOrder_ne_eq
    refine (List.Pairwise.and hle hne).imp fun {lhs rhs} ⟨hle, hne⟩ => ?_
    cases hcmp : changeOrder q.comparator lhs rhs with
    | lt => rfl
    | eq => exact absurd hcmp hne
    | gt => simp [hcmp] at hle
  · have hfind : (sortChanges q.comparator acc.changeSet.getChanges).find?
        (fun change => change.document.key = k) = acc.changeSet[k]? := by
      cases hk : acc.changeSet[k]? with
      | none =>
        rw [List.find?_eq_none]
        intro change hchange
        obtain ⟨e, he, rfl⟩ := List.mem_map.mp (hperm.mem_iff.mp hchange)
        have hne : e.1 ≠ k := by
          rintro rfl
          rw [Std.ExtTreeMap.mem_toList_iff_getElem?_eq_some.mp he] at hk
          cases hk
        simpa [hmem e he] using hne
      | some change =>
        have hin : change ∈ sortChanges q.comparator acc.changeSet.getChanges := by
          rw [hperm.mem_iff]
          exact List.mem_map.mpr ⟨(k, change),
            Std.ExtTreeMap.mem_toList_iff_getElem?_eq_some.mpr hk, rfl⟩
        rw [← hkey k change hk]
        exact KeyedList.find?_eq_some_of_nodup hnodup hin
    rw [hfind]
    exact h.nets k

section Apply
variable {v v' : View q} {c : ViewDocumentChanges q} {out : ViewChange q}
  {target : Option TargetChange}

def View.Admits (v : View q) (target : Option TargetChange) : Prop :=
  ∀ t, target = some t → ∀ k ∈ t.modifiedDocuments, k ∈ v.syncedDocuments ∨ k ∈ t.addedDocuments

/-- What `ApplyChanges` leaves behind. -/
structure Applied (v v' : View q) (c : ViewDocumentChanges q) (out : ViewChange q) : Prop where
  documentSet : v'.documentSet = c.documentSet
  mutatedKeys : v'.mutatedKeys = c.mutatedKeys
  syncState : v'.syncState = v'.newSyncState
  limbo : v'.current → ∀ k, k ∈ v'.limboDocuments ↔ v'.shouldBeInLimbo k
  replay : out.limboChanges.foldlM LimboDocumentChange.replay v.limboDocuments =
    some v'.limboDocuments
  snapshot : out.snapshot = v.newSnapshot c v'.syncState

theorem applyTargetChange_isSome_iff : (v.applyTargetChange target).isSome ↔ v.Admits target := by
  cases target with
  | none => simp [View.applyTargetChange, View.Admits]
  | some t =>
    have hall : t.modifiedDocuments.toList.all (v.syncedDocuments ∪ t.addedDocuments).contains ↔
        v.Admits (some t) := by
      simp [View.Admits, List.all_eq_true, Std.ExtTreeSet.mem_toList]
    rw [← hall, View.applyTargetChange]
    split_ifs with h <;> simp [h]

theorem applyTargetChange_eq {updated : View q} (h : v.applyTargetChange target = some updated) :
    updated.documentSet = v.documentSet ∧ updated.mutatedKeys = v.mutatedKeys ∧
      updated.limboDocuments = v.limboDocuments := by
  cases target with
  | none =>
    obtain rfl := Option.some.inj h
    exact ⟨rfl, rfl, rfl⟩
  | some t =>
    simp only [View.applyTargetChange] at h
    split_ifs at h
    obtain rfl := Option.some.inj h
    exact ⟨rfl, rfl, rfl⟩

theorem applied_of_applyChanges (h : v.applyChanges c target = some (v', out)) :
    Applied v v' c out := by
  unfold View.applyChanges at h
  split_ifs at h
  obtain ⟨updated, hupdated, he⟩ := Option.map_eq_some_iff.mp h
  obtain ⟨rfl, rfl⟩ := Prod.mk.inj he
  obtain ⟨hdocs, hmutated, hlimbo⟩ := applyTargetChange_eq hupdated
  have hsame := updated.updateLimboDocuments_eq
  refine ⟨?_, ?_, rfl, fun hcurrent k => ?_, ?_, rfl⟩
  · rw [hsame]
    exact hdocs
  · rw [hsame]
    exact hmutated
  · have hcurrent' : updated.current := by
      rw [hsame] at hcurrent
      exact hcurrent
    rw [hsame]
    exact updated.mem_updateLimboDocuments hcurrent' k
  · have hreplay := updated.replay_updateLimboDocuments
    rw [hlimbo] at hreplay
    exact hreplay

theorem applyChanges_isSome_iff (hc : c.needsRefill = false) :
    (v.applyChanges c target).isSome ↔ v.Admits target := by
  unfold View.applyChanges
  rw [if_neg (by simp [hc]), Option.isSome_map]
  exact applyTargetChange_isSome_iff (v := { v with
    documentSet := c.documentSet
    mutatedKeys := c.mutatedKeys })

end Apply

def View.Marked (v : View q) : Prop :=
  ∀ k, k ∈ v.mutatedKeys ↔ ∃ d, v.documentSet.getDocument k = some d ∧ d.hasLocalMutations

theorem View.Marked.accounts {v : View q} (hv : v.Marked) :
    Accounts v.documentSet (v.start none) := by
  refine ⟨fun k => ?_, hv⟩
  have hnone : (v.start none).changeSet[k]? = none := Std.ExtTreeMap.getElem?_empty
  rw [hnone]
  exact .same _

theorem marked_new (remoteKeys : DocumentKeySet) : (View.new remoteKeys : View q).Marked := by
  intro k
  simp [View.new, DocumentSet.getDocument, DocumentSet.empty]

variable [DecidableEq V]

section Compute
variable {v v' : View q} {m results : MaybeDocumentMap V} {target : Option TargetChange}
  {out : ViewChange q}

theorem accounts_of_computeDocumentChanges {previous : Option (ViewDocumentChanges q)}
    {base : DocumentSet q.comparator} {c : ViewDocumentChanges q} (hm : Keyed m)
    (hstart : Accounts base (v.start previous))
    (h : v.computeDocumentChanges m previous = some c) : Accounts base c := by
  obtain ⟨acc, hloop, hacc, -⟩ := looped hm hstart
  obtain ⟨c', hlimit, hc', -⟩ := ViewDocumentChanges.applyLimit_eq hacc
  rw [View.computeDocumentChanges, hloop, Option.bind_some, hlimit, Option.bind_some] at h
  split_ifs at h
  exact Option.some.inj h ▸ hc'

theorem computeDocumentChanges_of_empty (hv : v.Marked) (hm : Keyed m)
    (hempty : ∀ k, v.documentSet.getDocument k = none) :
    ∃ c, v.computeDocumentChanges m none = some c ∧ c.needsRefill = false := by
  obtain ⟨acc, hloop, hacc, L⟩ := looped hm hv.accounts
  obtain ⟨c, hlimit, -, hrefill, -⟩ := ViewDocumentChanges.applyLimit_eq hacc
  refine ⟨c, ?_, hrefill.trans (L.refill.mpr fun k x _ => ?_)⟩
  · rw [View.computeDocumentChanges, hloop, Option.bind_some, hlimit]
    simp
  · change ((v.pass none).calculateChange k (v.documentSet.getDocument k) _).2 = false
    rw [hempty k]
    cases q.select (some x) <;> rfl

theorem accounts_of_emitNewSnapshot (hv : v.Marked) (hm : Keyed m) (hresults : Keyed results)
    (h : v.emitNewSnapshot m results target = some (v', out)) :
    ∃ c, Accounts v.documentSet c ∧ v.applyChanges c target = some (v', out) := by
  unfold View.emitNewSnapshot at h
  obtain ⟨c, hcompute, h⟩ := Option.bind_eq_some_iff.mp h
  have hc := accounts_of_computeDocumentChanges hm hv.accounts hcompute
  obtain ⟨c', hrefill, h⟩ := Option.bind_eq_some_iff.mp h
  refine ⟨c', ?_, h⟩
  split_ifs at hrefill
  · have hstart : Accounts v.documentSet (v.start (some c)) := ⟨hc.nets, hc.mutated⟩
    exact accounts_of_computeDocumentChanges hresults hstart hrefill
  · exact Option.some.inj hrefill ▸ hc

end Compute

/-- The local store, and with it perhaps the target, changes; or the connection does. -/
inductive ViewStep : View q → ViewChange q → View q → Prop
  | changed {v v' : View q} {m results : MaybeDocumentMap V} {target : Option TargetChange}
      {out : ViewChange q} (hm : Keyed m) (hresults : Keyed results)
      (h : v.emitNewSnapshot m results target = some (v', out)) : ViewStep v out v'
  | online {v v' : View q} {state : OnlineState} {out : ViewChange q}
      (h : v.applyOnlineStateChange state = some (v', out)) : ViewStep v out v'

/-- A listener is attached to what the local store holds. -/
inductive Started : View q → ViewChange q → Prop
  | mk {v : View q} {results : MaybeDocumentMap V} {remoteKeys : DocumentKeySet}
      {mirror : Option SyncState} {out : ViewChange q} (hresults : Keyed results)
      (h : initializeView q results remoteKeys mirror = some (v, out)) : Started v out

structure Refreshed (v : View q) (out : ViewChange q) (v' : View q) (c : ViewDocumentChanges q) :
    Prop where
  accounts : Accounts v.documentSet c
  applied : Applied v v' c out

structure View.Sound (v : View q) : Prop where
  marked : v.Marked
  syncState : v.syncState = v.newSyncState
  limbo : v.current → ∀ k, k ∈ v.limboDocuments ↔ v.shouldBeInLimbo k

omit [DecidableEq V] in
theorem Refreshed.sound {v v' : View q} {out : ViewChange q} {c : ViewDocumentChanges q}
    (h : Refreshed v out v' c) : v'.Sound where
  marked k := by
    rw [h.applied.mutatedKeys, h.applied.documentSet]
    exact h.accounts.mutated k
  syncState := h.applied.syncState
  limbo := h.applied.limbo

theorem ViewStep.refreshed {v v' : View q} {out : ViewChange q} (h : ViewStep v out v')
    (hv : v.Sound) : ∃ c, Refreshed v out v' c := by
  cases h with
  | changed hm hresults h =>
    obtain ⟨c, hc, happly⟩ := accounts_of_emitNewSnapshot hv.marked hm hresults h
    exact ⟨c, hc, applied_of_applyChanges happly⟩
  | online h =>
    have hstart := hv.marked.accounts
    unfold View.applyOnlineStateChange at h
    split_ifs at h
    · have hA := applied_of_applyChanges h
      exact ⟨_, hstart, hA.documentSet, hA.mutatedKeys, hA.syncState, hA.limbo, hA.replay,
        hA.snapshot⟩
    · obtain ⟨rfl, rfl⟩ := Prod.mk.inj (Option.some.inj h)
      have hnone : v.newSnapshot (v.start none) v.syncState = none := by
        have hempty : (v.start none).changeSet.getChanges = [] :=
          DocumentViewChangeSet.getChanges_empty
        simp [View.newSnapshot, hempty, sortChanges]
      exact ⟨v.start none, hstart, rfl, rfl, hv.syncState, hv.limbo, rfl, hnone.symm⟩

theorem Started.refreshed {v : View q} {out : ViewChange q} (h : Started v out) :
    ∃ remoteKeys c, Refreshed (.new remoteKeys) out v c ∧ out.snapshot.isSome := by
  obtain ⟨hresults, h⟩ := h
  rename_i results remoteKeys mirror
  obtain ⟨c, hcompute, happly⟩ := Option.bind_eq_some_iff.mp h
  have hc := accounts_of_computeDocumentChanges hresults (marked_new remoteKeys).accounts hcompute
  have hA := applied_of_applyChanges happly
  refine ⟨remoteKeys, c, ⟨hc, hA⟩, ?_⟩
  -- the sync state of a new view is none yet, so it changes
  have hchanged : v.syncState ≠ SyncState.none := by
    rw [hA.syncState]
    unfold View.newSyncState
    split_ifs <;> decide
  rw [hA.snapshot, View.newSnapshot]
  simp [View.new, hchanged]

theorem exists_started {results : MaybeDocumentMap V} (hresults : Keyed results)
    (remoteKeys : DocumentKeySet) (mirror : Option SyncState) :
    ∃ v out, initializeView q results remoteKeys mirror = some (v, out) ∧ Started v out := by
  have hnew : ∀ k, (View.new remoteKeys : View q).documentSet.getDocument k = none :=
    fun k => Std.ExtTreeMap.getElem?_empty
  obtain ⟨c, hcompute, hno⟩ := computeDocumentChanges_of_empty (marked_new remoteKeys) hresults hnew
  have hadmits : (View.new remoteKeys : View q).Admits
      (mirror.map fun syncState => ⟨syncState = .synced, ∅, ∅, ∅⟩) := by
    intro t ht k hk
    obtain ⟨syncState, -, rfl⟩ := Option.map_eq_some_iff.mp ht
    simp at hk
  obtain ⟨⟨v, out⟩, happly⟩ :=
    Option.isSome_iff_exists.mp ((applyChanges_isSome_iff hno).mpr hadmits)
  have hview : initializeView q results remoteKeys mirror = some (v, out) := by
    rw [initializeView, hcompute, Option.bind_some, happly]
  exact ⟨v, out, hview, .mk hresults hview⟩

end Firestore
