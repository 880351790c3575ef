import Mathlib.Data.List.Chain
import Zeenoc.Firestore.ViewRuns

/-! What a listener can rely on in every run of a view: each snapshot continues the one before, and
the limbo changes add up. -/

namespace Firestore
variable {V : Type} {q : Query V}

structure Shown (q : Query V) where
  documents : DocumentSet q.comparator
  mutatedKeys : DocumentKeySet
  syncState : SyncState

def Shown.nothing : Shown q := ⟨.empty, ∅, .none⟩

def View.shown (v : View q) : Shown q := ⟨v.documentSet, v.mutatedKeys, v.syncState⟩

structure Reported (old : Shown q) (snapshot : ViewSnapshot q) (new : Shown q) : Prop where
  oldDocuments : snapshot.oldDocuments = old.documents
  documents : snapshot.documents = new.documents
  mutatedKeys : snapshot.mutatedKeys = new.mutatedKeys
  fromCache : snapshot.fromCache = decide (new.syncState = .fromCache)
  syncStateChanged : snapshot.syncStateChanged = decide (new.syncState ≠ old.syncState)
  excludes : snapshot.excludesMetadataChanges = false
  changes : Reports old.documents new.documents snapshot.documentChanges
  tells : snapshot.documentChanges ≠ [] ∨ new.syncState ≠ old.syncState

theorem Nets.eq_of_none {old cur : Option (Document V)} (h : Nets old cur none) : cur = old := by
  cases h with
  | same => rfl

theorem Reports.eq_of_nil {c : DocumentComparator V} {old new : DocumentSet c}
    (h : Reports old new []) : old = new := by
  apply DocumentSet.ext_getDocument
  intro k
  have hnets : Nets (old.getDocument k) (new.getDocument k) none := h.nets k
  exact hnets.eq_of_none.symm

theorem View.newSyncState_synced (v : View q) :
    v.newSyncState = .synced ↔ v.current ∧ ∀ k, k ∉ v.limboDocuments := by
  have hempty : v.limboDocuments.isEmpty ↔ ∀ k, k ∉ v.limboDocuments := by
    rw [Std.ExtTreeSet.isEmpty_iff, Std.ExtTreeSet.eq_empty_iff_forall_not_mem]
  rw [← hempty]
  unfold View.newSyncState
  cases v.limboDocuments.isEmpty <;> cases v.current <;> simp

section Steps
variable {v v' : View q} {out : ViewChange q} {c : ViewDocumentChanges q}

theorem Refreshed.reported (h : Refreshed v out v' c) (hv : v.Marked) :
    match out.snapshot with
    | none => v'.shown = v.shown
    | some snapshot => Reported v.shown snapshot v'.shown := by
  have hreports := h.accounts.reports
  have hdocs := h.applied.documentSet
  have hmutated := h.applied.mutatedKeys
  rw [h.applied.snapshot]
  unfold View.newSnapshot
  by_cases hnone : (sortChanges q.comparator c.changeSet.getChanges).isEmpty ∧
      v'.syncState = v.syncState
  · rw [if_pos (by simpa using hnone)]
    rw [List.isEmpty_iff.mp hnone.1] at hreports
    have hsame := hreports.eq_of_nil
    have hkeys : v'.mutatedKeys = v.mutatedKeys := by
      apply Std.ExtTreeSet.ext_mem
      intro k
      rw [hmutated, h.accounts.mutated k, hv k, hsame]
    simp only [View.shown, hdocs, ← hsame, hkeys, hnone.2]
  · rw [if_neg (by simpa using hnone)]
    refine ⟨rfl, hdocs.symm, hmutated.symm, rfl, rfl, rfl, ?_, ?_⟩
    · change Reports v.documentSet v'.documentSet _
      rw [hdocs]
      exact hreports
    · rw [not_and_or, List.isEmpty_iff] at hnone
      exact hnone

theorem snapshots_append (outs : List (ViewChange q)) (out : ViewChange q) :
    (outs ++ [out]).filterMap ViewChange.snapshot =
      outs.filterMap ViewChange.snapshot ++ out.snapshot.toList := by
  rw [List.filterMap_append]
  cases h : out.snapshot <;> simp [h]

theorem Refreshed.told {told : List (ViewSnapshot q)} (h : Refreshed v out v' c) (hv : v.Marked)
    (hrun : Runs.Run Reported Shown.nothing told v.shown) :
    Runs.Run Reported Shown.nothing (told ++ out.snapshot.toList) v'.shown := by
  have hreported := h.reported hv
  cases hsnapshot : out.snapshot with
  | none =>
    rw [hsnapshot] at hreported
    rw [hreported, Option.toList_none, List.append_nil]
    exact hrun
  | some snapshot =>
    rw [hsnapshot] at hreported
    exact .step hrun hreported

end Steps

section Linked
variable {shown shown' : Shown q} {told : List (ViewSnapshot q)}

theorem linked_of_run (h : Runs.Run Reported shown told shown') :
    (told.head?.map ViewSnapshot.oldDocuments).getD shown'.documents = shown.documents ∧
      told.IsChain (fun snapshot next => next.oldDocuments = snapshot.documents) ∧
      (told.getLast?.map ViewSnapshot.documents).getD shown.documents = shown'.documents := by
  induction h with
  | start => exact ⟨rfl, .nil, rfl⟩
  | @step told shown₁ shown₂ snapshot _ hreported ih =>
    obtain ⟨hhead, hchain, hlast⟩ := ih
    refine ⟨?_, ?_, ?_⟩
    · rw [List.head?_append]
      cases hfirst : told.head? with
      | none =>
        rw [hfirst] at hhead
        exact hreported.oldDocuments.trans hhead
      | some first =>
        rw [hfirst] at hhead
        exact hhead
    · rw [List.isChain_append]
      refine ⟨hchain, .singleton _, fun last hmem next hnext => ?_⟩
      obtain rfl : snapshot = next := by simpa using hnext
      rw [Option.mem_def.mp hmem] at hlast
      exact hreported.oldDocuments.trans hlast.symm
    · rw [List.getLast?_concat]
      exact hreported.documents

theorem reports_of_run (h : Runs.Run Reported shown told shown') :
    ∀ snapshot ∈ told,
      Reports snapshot.oldDocuments snapshot.documents snapshot.documentChanges := by
  induction h with
  | start => simp
  | @step told shown₁ shown₂ snapshot _ hreported ih =>
    intro s hs
    rcases List.mem_append.mp hs with hs | hs
    · exact ih s hs
    · obtain rfl := List.mem_singleton.mp hs
      rw [hreported.oldDocuments, hreported.documents]
      exact hreported.changes

end Linked

section Total
variable [DecidableEq V]

theorem ViewStep.reported {v v' : View q} {out : ViewChange q} (h : ViewStep v out v')
    (hv : v.Sound) : v'.Sound ∧ match out.snapshot with
      | none => v'.shown = v.shown
      | some snapshot => Reported v.shown snapshot v'.shown := by
  obtain ⟨c, R⟩ := h.refreshed hv
  exact ⟨R.sound, R.reported hv.marked⟩

theorem Started.reported {v : View q} {out : ViewChange q} (h : Started v out) :
    v.Sound ∧ ∃ snapshot, out.snapshot = some snapshot ∧
      Reported Shown.nothing snapshot v.shown := by
  obtain ⟨remoteKeys, c, R, hsome⟩ := h.refreshed
  obtain ⟨snapshot, hsnapshot⟩ := Option.isSome_iff_exists.mp hsome
  have hreported := R.reported (marked_new remoteKeys)
  rw [hsnapshot] at hreported
  exact ⟨R.sound, snapshot, hsnapshot, hreported⟩

omit [DecidableEq V] in
theorem exists_applyOnlineStateChange (v : View q) (onlineState : OnlineState) :
    ∃ v' snapshot, v.applyOnlineStateChange onlineState = some (v', ⟨snapshot, []⟩) := by
  unfold View.applyOnlineStateChange
  split_ifs
  · exact ⟨_, _, rfl⟩
  · exact ⟨v, none, rfl⟩

end Total

section Runs
variable [DecidableEq V] {v₀ v : View q} {out₀ : ViewChange q} {outs : List (ViewChange q)}

theorem Started.told (h : Started v₀ out₀) (hrun : Runs.Run ViewStep v₀ outs v) :
    Runs.Run Reported Shown.nothing ((out₀ :: outs).filterMap ViewChange.snapshot) v.shown := by
  obtain ⟨remoteKeys, c, R, -⟩ := h.refreshed
  have hstart : Runs.Run Reported Shown.nothing
      ([out₀].filterMap ViewChange.snapshot) v₀.shown := by
    have htold := R.told (marked_new remoteKeys) .start
    rwa [List.nil_append] at htold
  have hall : v.Sound ∧ Runs.Run Reported Shown.nothing
      ((out₀ :: outs).filterMap ViewChange.snapshot) v.shown := by
    refine hrun.invariant (I := fun outs v => v.Sound ∧ Runs.Run Reported Shown.nothing
      ((out₀ :: outs).filterMap ViewChange.snapshot) v.shown)
      ⟨R.sound, hstart⟩ fun outs v out v' ⟨hv, htold⟩ hstep => ?_
    obtain ⟨c, R'⟩ := hstep.refreshed hv
    refine ⟨R'.sound, ?_⟩
    rw [← List.cons_append, snapshots_append]
    exact R'.told hv.marked htold
  exact hall.2

/-- Each snapshot of a run starts from the documents of the one before, the first one from none, and
the last one has the documents of the view. The changes of a snapshot are ordered, at most one for
each document, and say how its documents differ from the old ones. -/
theorem snapshots_linked (h : Started v₀ out₀) (hrun : Runs.Run ViewStep v₀ outs v) :
    let told := (out₀ :: outs).filterMap ViewChange.snapshot
    told.head?.map ViewSnapshot.oldDocuments = some .empty ∧
      told.IsChain (fun snapshot next => next.oldDocuments = snapshot.documents) ∧
      told.getLast?.map ViewSnapshot.documents = some v.documentSet ∧
      ∀ snapshot ∈ told,
        Reports snapshot.oldDocuments snapshot.documents snapshot.documentChanges := by
  intro told
  have hrun' := h.told hrun
  obtain ⟨hhead, hchain, hlast⟩ := linked_of_run hrun'
  obtain ⟨-, first, hfirst, -⟩ := h.reported
  have htold : told = first :: outs.filterMap ViewChange.snapshot := by
    simp [told, hfirst]
  refine ⟨?_, hchain, ?_, reports_of_run hrun'⟩
  · change (told.head?.map ViewSnapshot.oldDocuments).getD _ = _ at hhead
    rw [htold] at hhead ⊢
    exact congrArg some hhead
  · change (told.getLast?.map ViewSnapshot.documents).getD _ = _ at hlast
    rw [htold] at hlast ⊢
    rw [List.getLast?_cons] at hlast ⊢
    exact congrArg some hlast

omit [DecidableEq V] in
theorem shouldBeInLimbo_iff {d : Document V} (hd : d ∈ v.documentSet.sortedSet) :
    v.shouldBeInLimbo d.key ↔ ¬(d.key ∈ v.syncedDocuments ∨ d.hasLocalMutations) := by
  rw [v.documentSet.mem_iff] at hd
  simp only [View.shouldBeInLimbo, hd, Option.any_some, Bool.and_eq_true, Bool.not_eq_true',
    not_or, Bool.not_eq_true, Std.ExtTreeSet.mem_iff_contains]

/-- The limbo changes of a run add up to the documents in limbo, and a view is synced just when it
is current and the server lists every document that it shows without local mutations. -/
theorem limbo_accounted (h : Started v₀ out₀) (hrun : Runs.Run ViewStep v₀ outs v) :
    ((out₀ :: outs).flatMap ViewChange.limboChanges).foldlM LimboDocumentChange.replay ∅ =
        some v.limboDocuments ∧
      (v.syncState = .synced ↔ v.current ∧
        ∀ d ∈ v.documentSet.sortedSet, d.key ∈ v.syncedDocuments ∨ d.hasLocalMutations) := by
  obtain ⟨remoteKeys, c, R, -⟩ := h.refreshed
  have hall : v.Sound ∧ ((out₀ :: outs).flatMap ViewChange.limboChanges).foldlM
      LimboDocumentChange.replay ∅ = some v.limboDocuments := by
    refine hrun.invariant (I := fun outs v => v.Sound ∧
      ((out₀ :: outs).flatMap ViewChange.limboChanges).foldlM LimboDocumentChange.replay ∅ =
        some v.limboDocuments) ⟨R.sound, ?_⟩ fun outs v out v' ⟨hv, hreplay⟩ hstep => ?_
    · rw [List.flatMap_singleton]
      exact R.applied.replay
    · obtain ⟨c, R'⟩ := hstep.refreshed hv
      refine ⟨R'.sound, ?_⟩
      rw [← List.cons_append, List.flatMap_append, List.flatMap_singleton, List.foldlM_append,
        hreplay]
      exact R'.applied.replay
  obtain ⟨hv, hreplay⟩ := hall
  refine ⟨hreplay, ?_⟩
  rw [hv.syncState, View.newSyncState_synced]
  apply and_congr_right
  intro hcurrent
  constructor
  · intro hempty d hd
    by_contra hnot
    exact hempty d.key ((hv.limbo hcurrent d.key).mpr ((shouldBeInLimbo_iff hd).mpr hnot))
  · intro hall k hk
    have hshould := (hv.limbo hcurrent k).mp hk
    obtain ⟨d, hget, -⟩ := (Option.any_eq_true _ _).mp (Bool.and_eq_true_iff.mp hshould).2
    have hd := DocumentSet.mem_of_getDocument hget
    rw [← v.documentSet.getDocument_key hget] at hshould
    exact (shouldBeInLimbo_iff hd).mp hshould (hall d hd)

end Runs

section Listing

def propertiesQuery : Query ℕ := Query.collection ["properties"]

def listedProperty : Document ℕ where
  key := ⟨["properties", "Q"], rfl⟩
  data := 0
  version := 1
  documentState := .synced

def listedProperties : MaybeDocumentMap ℕ := {(listedProperty.key, .document listedProperty)}

theorem keyed_empty : Keyed (∅ : MaybeDocumentMap V) := by
  intro k d hk
  rw [Std.ExtTreeMap.getElem?_empty] at hk
  cases hk

theorem keyed_listedProperties : Keyed listedProperties := by
  intro k d hk
  change ((∅ : MaybeDocumentMap ℕ).insert listedProperty.key (.document listedProperty))[k]? =
    some (.document d) at hk
  rw [Std.ExtTreeMap.getElem?_insert] at hk
  split_ifs at hk with hkey
  · obtain rfl := MaybeDocument.document.inj (Option.some.inj hk)
    exact Std.LawfulEqCmp.compare_eq_iff_eq.mp hkey
  · rw [Std.ExtTreeMap.getElem?_empty] at hk
    cases hk

def emptyView : View propertiesQuery × ViewChange propertiesQuery :=
  (initializeView propertiesQuery ∅ ∅ none).get (by decide)

def listingView : View propertiesQuery × ViewChange propertiesQuery :=
  (emptyView.1.emitNewSnapshot listedProperties listedProperties none).get (by decide)

theorem started_empty : Started emptyView.1 emptyView.2 := by
  have hview : initializeView propertiesQuery ∅ ∅ none = some emptyView :=
    (Option.some_get _).symm
  exact .mk keyed_empty hview

theorem listing_run : Runs.Run ViewStep emptyView.1 [listingView.2] listingView.1 := by
  have hview : emptyView.1.emitNewSnapshot listedProperties listedProperties none =
      some listingView := (Option.some_get _).symm
  exact .step .start (.changed keyed_listedProperties keyed_listedProperties hview)

theorem listing_linked : ∃ last : ViewSnapshot propertiesQuery,
    listingView.2.snapshot = some last ∧ last.documents = listingView.1.documentSet := by
  have hlast := (snapshots_linked started_empty listing_run).2.2.1
  have hsome : listingView.2.snapshot.isSome := by decide +kernel
  obtain ⟨last, hsnapshot⟩ := Option.isSome_iff_exists.mp hsome
  refine ⟨last, hsnapshot, ?_⟩
  have htold : ([emptyView.2, listingView.2].filterMap ViewChange.snapshot).getLast? =
      some last := by
    rw [List.filterMap_cons, List.filterMap_cons, hsnapshot]
    cases emptyView.2.snapshot <;> rfl
  rw [htold] at hlast
  exact Option.some.inj hlast

theorem listing_not_synced : listingView.1.syncState ≠ .synced := by
  intro hsynced
  have h := ((limbo_accounted started_empty listing_run).2.mp hsynced).1
  revert h
  decide

end Listing
end Firestore
