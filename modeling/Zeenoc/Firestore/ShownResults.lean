import Zeenoc.Firestore.LimitedResults

/-! A view over a store whose queries find what they select: what it shows is that, up to its limit,
and bringing it up to date fails on no assertion. -/

namespace Firestore
variable {V : Type} {q : Query V} {sel : Selected V} {past past' : Document V → Prop}
  {documents : DocumentSet q.comparator}

theorem Shows.imp (h : Shows q documents sel past) (hpast : ∀ d, past d → past' d) :
    Shows q documents sel past' := by
  obtain ⟨all, hlags, hlist⟩ := h
  exact ⟨all, fun k => (hlags k).imp fun d _ => hpast d, hlist⟩

theorem Query.map_limited {β : Type} {l l' : List (Document V)} (f : Document V → β)
    (h : l.map f = l'.map f) : (q.limited l).map f = (q.limited l').map f := by
  unfold Query.limited
  cases q.limitType with
  | none => exact h
  | first => rw [List.map_take, List.map_take, h]
  | last =>
    have hlen : l.length = l'.length := by
      have hlen := congrArg List.length h
      rwa [List.length_map, List.length_map] at hlen
    rw [List.map_drop, List.map_drop, h, hlen]

theorem Shows.content_eq {r : DocumentSet q.comparator} (h : Shows q documents sel past)
    (hsynced : ∀ k d, sel k = some d → d.hasCommittedMutations = false)
    (hr : ∀ k, (r.getDocument k).map Document.content = (sel k).map Document.content) :
    documents.sortedSet.map Document.content = (q.limited r.sortedSet).map Document.content := by
  obtain ⟨all, hlags, hlist⟩ := h
  rw [hlist]
  apply Query.map_limited
  apply DocumentSet.map_content_eq
  intro k
  have hsame := (hlags k).synced (hsynced k)
  have hcontent := congrArg (Option.map fun x : DocumentKey × V × Bool => (x.1, x.2.1)) hsame
  rw [Option.map_map, Option.map_map] at hcontent
  rw [hr k]
  exact hcontent

theorem shows_nothing : Shows q .empty (fun _ => none) past := by
  refine ⟨.empty, fun _ => .absent, ?_⟩
  change [] = q.limited []
  unfold Query.limited
  cases q.limitType <;> simp

theorem documentSet_of_applyOnlineStateChange {v v' : View q} {state : OnlineState}
    {out : ViewChange q} (h : v.applyOnlineStateChange state = some (v', out)) :
    v'.documentSet = v.documentSet := by
  unfold View.applyOnlineStateChange at h
  split_ifs at h
  · exact (applied_of_applyChanges h).documentSet
  · rw [(Prod.mk.inj (Option.some.inj h)).1]

variable [DecidableEq V] {v v' : View q} {m results : MaybeDocumentMap V}
  {target : Option TargetChange} {out : ViewChange q}

theorem emitNewSnapshot_eq (hv : v.Marked) (hshows : Shows q v.documentSet sel past)
    (hsel : Selects q sel) (hm : Keyed m) (hresults : Executed results (sel.patch q m))
    (target : Option TargetChange) :
    ∃ c, c.needsRefill = false ∧
      v.emitNewSnapshot m results target = v.applyChanges c target ∧
      Shows q c.documentSet (sel.patch q m) (fun d => past d ∨ v.Showed d) ∧
      ∀ k o, c.documentSet.getDocument k = some o → Lags v.Showed (sel.patch q m k) (some o) := by
  obtain ⟨c, hcompute, hc, hlags, hfound⟩ := compute_changes hv hshows hm
  cases hrefill : c.needsRefill with
  | false =>
    refine ⟨c, hrefill, ?_, hfound hrefill, hlags⟩
    rw [View.emitNewSnapshot, hcompute, Option.bind_some, hrefill, if_neg (by simp),
      Option.bind_some]
  | true =>
    obtain ⟨c', hcompute', -, hrefill', hshows'⟩ := compute_refill hc hlags (hsel.patch hm) hresults
    refine ⟨c', hrefill', ?_, hshows'.imp fun _ hd => .inr hd, fun k o ho => hshows'.lags ho⟩
    rw [View.emitNewSnapshot, hcompute, Option.bind_some, hrefill, if_pos rfl, hcompute',
      Option.bind_some]

theorem shows_of_emitNewSnapshot (hv : v.Marked) (hshows : Shows q v.documentSet sel past)
    (hsel : Selects q sel) (hm : Keyed m) (hresults : Executed results (sel.patch q m))
    (h : v.emitNewSnapshot m results target = some (v', out)) :
    Shows q v'.documentSet (sel.patch q m) (fun d => past d ∨ v.Showed d) ∧
      ∀ k o, v'.documentSet.getDocument k = some o →
        Lags v.Showed (sel.patch q m k) (some o) := by
  obtain ⟨c, -, hemit, hshows', hlags⟩ := emitNewSnapshot_eq hv hshows hsel hm hresults target
  rw [hemit] at h
  rw [(applied_of_applyChanges h).documentSet]
  exact ⟨hshows', hlags⟩

theorem emitNewSnapshot_admits (hv : v.Marked) (hshows : Shows q v.documentSet sel past)
    (hsel : Selects q sel) (hm : Keyed m) (hresults : Executed results (sel.patch q m)) :
    (v.emitNewSnapshot m results target).isSome ↔ v.Admits target := by
  obtain ⟨c, hrefill, hemit, -⟩ := emitNewSnapshot_eq hv hshows hsel hm hresults target
  rw [hemit]
  exact applyChanges_isSome_iff hrefill

theorem shows_of_initializeView {remoteKeys : DocumentKeySet} {mirror : Option SyncState}
    (hsel : Selects q sel) (hexecuted : Executed results sel)
    (h : initializeView q results remoteKeys mirror = some (v, out)) :
    Shows q v.documentSet sel fun _ => False := by
  obtain ⟨sel', hresults, hsame, hsel', hkeyed⟩ := hexecuted.found hsel
  have hpatch : Selected.patch q (fun _ => none) results = sel' := by
    funext k
    unfold Selected.patch
    rw [hresults k]
    cases hk : sel' k with
    | none => rfl
    | some d => exact q.select_eq_some.mpr ⟨rfl, (hsel' k d hk).2⟩
  obtain ⟨c, hcompute, -, -, hshows⟩ := compute_changes (marked_new remoteKeys)
    (shows_nothing : Shows q .empty (fun _ => none) fun _ => False) hkeyed
  rw [initializeView, hcompute, Option.bind_some] at h
  have hno : c.needsRefill = false := by
    have hsome := Option.isSome_of_eq_some h
    unfold View.applyChanges at hsome
    by_contra hne
    rw [if_pos (Bool.eq_true_of_not_eq_false hne)] at hsome
    cases hsome
  obtain ⟨all, hlags, hlist⟩ := hshows hno
  rw [hpatch] at hlags
  rw [(applied_of_applyChanges h).documentSet]
  refine ⟨all, fun k => ((hlags k).unversioned (hsame k)).imp fun d _ hd => ?_, hlist⟩
  have hnone : (View.new remoteKeys : View q).documentSet.getDocument d.key = none :=
    Std.ExtTreeMap.getElem?_empty
  exact hd.elim id fun hd => (Option.some_ne_none d (hd.symm.trans hnone)).elim

end Firestore
