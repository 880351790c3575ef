import Zeenoc.Firestore.ViewRuns

/-! A view that works out changed documents shows what running its query again would show, up to
documents that wait for their synced version. -/

namespace Firestore
variable {V : Type} {q : Query V}

/-- `shown` stands for `stored`. It may be an earlier document with local mutations, one of `past`,
when those are committed and the synced version has yet to come. -/
inductive Lags (past : Document V → Prop) : Option (Document V) → Option (Document V) → Prop
  | absent : Lags past none none
  | present (stored shown : Document V) (hkey : shown.key = stored.key)
      (hdata : shown.data = stored.data ∨
        shown.hasLocalMutations ∧ stored.hasCommittedMutations ∧ past shown)
      (hlocal : shown.hasLocalMutations ↔ stored.hasLocalMutations ∨
        shown.hasLocalMutations ∧ stored.hasCommittedMutations) :
      Lags past (some stored) (some shown)

section Lags
variable {past past' : Document V → Prop} {stored stored' shown : Option (Document V)}

theorem Lags.refl (o : Option (Document V)) : Lags past o o := by
  cases o with
  | none => exact .absent
  | some d =>
    refine .present d d rfl (.inl rfl) ⟨.inl, ?_⟩
    rintro (h | h)
    · exact h
    · exact h.1

theorem Lags.imp (h : Lags past stored shown) (hpast : ∀ d, shown = some d → past d → past' d) :
    Lags past' stored shown := by
  cases h with
  | absent => exact .absent
  | present stored shown hkey hdata hlocal =>
    refine .present stored shown hkey (hdata.imp_right fun hwaits => ?_) hlocal
    exact ⟨hwaits.1, hwaits.2.1, hpast shown rfl hwaits.2.2⟩

theorem Lags.unversioned (h : Lags past stored shown)
    (hsame : stored.map Document.unversioned = stored'.map Document.unversioned) :
    Lags past stored' shown := by
  cases h with
  | absent =>
    rw [Option.map_none, eq_comm, Option.map_eq_none_iff] at hsame
    rw [hsame]
    exact .absent
  | present stored shown hkey hdata hlocal =>
    rw [Option.map_some, eq_comm, Option.map_eq_some_iff] at hsame
    obtain ⟨d, rfl, he⟩ := hsame
    have hdkey : d.key = stored.key := congrArg Prod.fst he
    have hddata : d.data = stored.data := congrArg (fun x => x.2.1) he
    have hstate : d.documentState = stored.documentState := congrArg (fun x => x.2.2) he
    have hdlocal : d.hasLocalMutations = stored.hasLocalMutations := by
      simp only [Document.hasLocalMutations, hstate]
    have hdcommitted : d.hasCommittedMutations = stored.hasCommittedMutations := by
      simp only [Document.hasCommittedMutations, hstate]
    refine .present d shown (hkey.trans hdkey.symm) ?_ ?_
    · rw [hddata, hdcommitted]
      exact hdata
    · rw [hdlocal, hdcommitted]
      exact hlocal

theorem Lags.synced (h : Lags past stored shown)
    (hstored : ∀ d, stored = some d → d.hasCommittedMutations = false) :
    shown.map (fun d => (d.key, d.data, d.hasLocalMutations)) =
      stored.map fun d => (d.key, d.data, d.hasLocalMutations) := by
  cases h with
  | absent => rfl
  | present stored shown hkey hdata hlocal =>
    have hcommitted := hstored stored rfl
    simp only [hcommitted, Bool.false_eq_true, and_false, false_and, or_false] at hdata hlocal
    have hsame : shown.hasLocalMutations = stored.hasLocalMutations := Bool.eq_iff_iff.mpr hlocal
    simp [hkey, hdata, hsame]

end Lags

theorem exists_patched (s : DocumentSet q.comparator)
    (f : DocumentKey → Option (Document V)) (hf : ∀ k d, f k = some d → d.key = k)
    (keys : List DocumentKey) : ∃ s' : DocumentSet q.comparator,
      ∀ k, s'.getDocument k = if k ∈ keys then f k else s.getDocument k := by
  induction keys with
  | nil => exact ⟨s, by simp⟩
  | cons key keys ih =>
    obtain ⟨s', hs'⟩ := ih
    cases hkey : f key with
    | none =>
      refine ⟨s'.erase key, fun k => ?_⟩
      rw [DocumentSet.getDocument_erase]
      by_cases hk : k = key
      · simp [hk, hkey]
      · simp [hk, hs']
    | some d =>
      obtain rfl := hf key d hkey
      refine ⟨s'.insert d, fun k => ?_⟩
      rw [DocumentSet.getDocument_insert]
      by_cases hk : k = d.key
      · simp [hk, hkey]
      · simp [hk, hs']

variable [DecidableEq V]

namespace Pass
variable {p : Pass q} {key : DocumentKey} {oldDoc newDoc : Option (Document V)}

theorem lags_nextDocument (hold : ∀ d, oldDoc = some d → d.key = key)
    (hnew : ∀ d, newDoc = some d → d.key = key)
    (hmutated : ∀ d, oldDoc = some d → (key ∈ p.oldMutatedKeys ↔ d.hasLocalMutations)) :
    Lags (fun d => oldDoc = some d) newDoc (p.nextDocument key oldDoc newDoc) := by
  cases oldDoc with
  | none => cases newDoc <;> exact Lags.refl _
  | some oldDoc =>
    cases newDoc with
    | none => exact .absent
    | some newDoc =>
      have hkeys : oldDoc.key = newDoc.key := (hold _ rfl).trans (hnew _ rfl).symm
      have hlocal : p.oldMutatedKeys.contains key = oldDoc.hasLocalMutations := by
        rw [Bool.eq_iff_iff, ← hmutated oldDoc rfl, Std.ExtTreeSet.mem_iff_contains]
      simp only [nextDocument, calculateChange, hlocal]
      by_cases hdata : oldDoc.data = newDoc.data
      · rw [if_neg (not_not.mpr hdata)]
        split_ifs with hpending
        · exact Lags.refl _
        · refine .present newDoc oldDoc hkeys (.inl hdata) ?_
          have hsame := not_not.mp hpending
          rw [Bool.eq_iff_iff] at hsame
          simpa using hsame
      · rw [if_pos hdata]
        split_ifs with hwait
        · simp only [shouldWaitForSyncedDocument, Bool.and_eq_true] at hwait
          obtain ⟨hwait, -⟩ := hwait
          exact .present newDoc oldDoc hkeys (.inr ⟨hwait.1, hwait.2, rfl⟩)
            ⟨fun _ => .inr hwait, fun _ => hwait.1⟩
        · exact Lags.refl _

/-- A document that already follows its stored version is never modified again, only confirmed. -/
theorem nextDocument_of_lags {past : Document V → Prop} {d o : Document V}
    (h : Lags past (some d) (some o)) : (p.calculateChange key (some o) (some d)).2 = false ∧
      Lags past (some d) (p.nextDocument key (some o) (some d)) := by
  cases h with
  | present d o hkey hdata hlocal =>
    simp only [nextDocument, calculateChange]
    by_cases heq : o.data = d.data
    · rw [if_neg (not_not.mpr heq)]
      split_ifs with hpending
      · exact ⟨rfl, Lags.refl _⟩
      · exact ⟨rfl, .present d o hkey hdata hlocal⟩
    · have hwaits := hdata.resolve_left heq
      have hwait : shouldWaitForSyncedDocument d o := by
        simp [shouldWaitForSyncedDocument, hwaits.1, hwaits.2.1, Document.not_local_of_committed]
      rw [if_pos heq, if_pos hwait]
      exact ⟨rfl, .present d o hkey hdata hlocal⟩

end Pass

section Limit
variable {v : View q} {m : MaybeDocumentMap V} {all known new : DocumentSet q.comparator}

theorem Pass.exists_within {p : Pass q} {key : DocumentKey} {o : Document V}
    {newDoc : Option (Document V)} {within : Document V → Prop}
    (hfull : p.lastDocInLimit.isSome || p.firstDocInLimit.isSome)
    (hwithin : ∀ d, p.outsideLimit d = false → within d)
    (hcongr : ∀ d, o.key = d.key → o.data = d.data → within o → within d)
    (hkey : ∀ d, newDoc = some d → d.key = o.key) (ho : within o)
    (hrefill : (p.calculateChange key (some o) newDoc).2 = false) :
    ∃ d, p.nextDocument key (some o) newDoc = some d ∧ within d := by
  cases newDoc with
  | none =>
    have hsome : (p.lastDocInLimit.isSome || p.firstDocInLimit.isSome) = false := hrefill
    rw [hfull] at hsome
    cases hsome
  | some newDoc =>
    simp only [nextDocument, calculateChange] at hrefill ⊢
    by_cases hdata : o.data = newDoc.data
    · rw [if_neg (not_not.mpr hdata)]
      split_ifs
      · exact ⟨newDoc, rfl, hcongr newDoc (hkey newDoc rfl).symm hdata ho⟩
      · exact ⟨o, rfl, ho⟩
    · rw [if_pos hdata] at hrefill ⊢
      split_ifs at hrefill ⊢ with hwait
      · exact ⟨o, rfl, ho⟩
      · exact ⟨newDoc, rfl, hwithin newDoc hrefill⟩

omit [DecidableEq V] in
theorem outsideLimit_last {p : Pass q} {bound d : Document V}
    (hbound : p.lastDocInLimit = some bound) (hd : p.outsideLimit d = false) :
    q.comparator.compare d bound ≠ .gt := by
  have hd' := (Bool.or_eq_false_iff.mp hd).1
  rw [hbound] at hd'
  simpa using hd'

omit [DecidableEq V] in
theorem outsideLimit_first {p : Pass q} {bound d : Document V}
    (hbound : p.firstDocInLimit = some bound) (hd : p.outsideLimit d = false) :
    q.comparator.compare bound d ≠ .gt := by
  have hd' := (Bool.or_eq_false_iff.mp hd).2
  rw [hbound] at hd'
  simpa [@Std.OrientedCmp.gt_iff_lt _ q.comparator.compare] using hd'

/-- A pass without a refill over documents that were the limited results `all`; it leaves `known` of
the results `new`. -/
structure Passed (v : View q) (m : MaybeDocumentMap V)
    (all known new : DocumentSet q.comparator) : Prop where
  keyed : Keyed m
  shown : v.documentSet.sortedSet = q.limited all.sortedSet
  kept : ∀ k, m[k]? = none → known.getDocument k = v.documentSet.getDocument k
  keptNew : ∀ k, m[k]? = none → new.getDocument k = all.getDocument k
  edited : ∀ k x, m[k]? = some x → known.getDocument k =
      (v.pass none).nextDocument k (v.documentSet.getDocument k) (q.select (some x)) ∧
    new.getDocument k = known.getDocument k
  refill : ∀ k x, m[k]? = some x → ((v.pass none).calculateChange k
    (v.documentSet.getDocument k) (q.select (some x))).2 = false

namespace Passed

theorem patched (h : Passed v m all known new) :
    SortedList.Patched Document.key (fun k => m[k]? ≠ none) all.sortedSet
      v.documentSet.sortedSet known.sortedSet new.sortedSet where
  edited d hd := by
    obtain ⟨x, hx⟩ := Option.ne_none_iff_exists'.mp hd
    rw [known.mem_iff, new.mem_iff, (h.edited d.key x hx).2]
  kept d hd := by rw [known.mem_iff, h.kept d.key (not_not.mp hd), v.documentSet.mem_iff]
  keptNew d hd := by rw [new.mem_iff, h.keptNew d.key (not_not.mp hd), all.mem_iff]

theorem same (h : Passed v m all known new) (hall : v.documentSet.sortedSet = all.sortedSet) :
    known.sortedSet = new.sortedSet := by
  apply DocumentSet.sortedSet_eq_of_getDocument
  intro k
  cases hk : m[k]? with
  | none =>
    rw [h.kept k hk, h.keptNew k hk]
    exact DocumentSet.getDocument_eq_of_sortedSet hall k
  | some x => exact (h.edited k x hk).2.symm

/-- The documents of a full limit are still there, and not past its end. -/
theorem exists_within (h : Passed v m all known new) {within : Document V → Prop}
    (hfull : (v.pass none).lastDocInLimit.isSome || (v.pass none).firstDocInLimit.isSome)
    (hwithin : ∀ d, (v.pass none).outsideLimit d = false → within d)
    (hcongr : ∀ o d, o.key = d.key → o.data = d.data → within o → within d) {o : Document V}
    (ho : o ∈ v.documentSet.sortedSet) (hwo : within o) :
    ∃ d ∈ known.sortedSet, d.key = o.key ∧ within d := by
  have hget : v.documentSet.getDocument o.key = some o := (v.documentSet.mem_iff o).mp ho
  cases hk : m[o.key]? with
  | none =>
    refine ⟨o, ?_, rfl, hwo⟩
    rw [known.mem_iff, h.kept o.key hk, hget]
  | some x =>
    have hno := h.refill o.key x hk
    rw [hget] at hno
    have hxkey : ∀ d, q.select (some x) = some d → d.key = o.key := by
      intro d hd
      obtain ⟨hx, -⟩ := q.select_eq_some.mp hd
      obtain rfl := Option.some.inj hx
      exact h.keyed o.key d hk
    obtain ⟨d, hd, hwd⟩ := Pass.exists_within hfull hwithin (hcongr o) hxkey hwo hno
    have hknown : known.getDocument o.key = some d := by
      rw [(h.edited o.key x hk).1, hget, hd]
    exact ⟨d, DocumentSet.mem_of_getDocument hknown, known.getDocument_key hknown, hwd⟩

theorem take_eq (h : Passed v m all known new) (hlimit : q.limitType = .first) :
    known.sortedSet.take q.limit = new.sortedSet.take q.limit := by
  have hshown : v.documentSet.sortedSet = all.sortedSet.take q.limit := by
    rw [h.shown, Query.limited, hlimit]
  rcases Nat.lt_or_ge q.limit all.sortedSet.length with hlen | hlen
  · have hsize : v.documentSet.size = q.limit := by
      rw [DocumentSet.size_eq_length, hshown, List.length_take, Nat.min_eq_left hlen.le]
    cases hlast : v.documentSet.sortedSet.getLast? with
    | none =>
      -- a limit of no documents
      have hzero : q.limit = 0 := by
        rw [← hsize, DocumentSet.size_eq_length, List.getLast?_eq_none_iff.mp hlast]
        rfl
      rw [hzero, List.take_zero, List.take_zero]
    | some bound =>
      have hbound : (v.pass none).lastDocInLimit = some bound :=
        (if_pos ⟨hlimit, hsize⟩).trans hlast
      have hpatched := h.patched
      rw [hshown] at hpatched hlast
      refine hpatched.take_eq all.sorted new.sorted known.sorted all.keys_nodup hlen.le hlast
        fun o ho => ?_
      refine h.exists_within (by rw [hbound]; rfl)
        (fun d hd => outsideLimit_last hbound hd) (fun o d hkey hdata hwo => ?_) (hshown ▸ ho)
        ((all.sorted.sublist (List.take_sublist _ _)).le_getLast ho hlast)
      have hsame : q.comparator.compare o bound = q.comparator.compare d bound := by
        simp only [DocumentComparator.compare, hkey, hdata]
      rwa [← hsame]
  · rw [h.same (hshown.trans (List.take_of_length_le hlen))]

theorem drop_eq (h : Passed v m all known new) (hlimit : q.limitType = .last) :
    known.sortedSet.drop (known.sortedSet.length - q.limit) =
      new.sortedSet.drop (new.sortedSet.length - q.limit) := by
  have hshown : v.documentSet.sortedSet =
      all.sortedSet.drop (all.sortedSet.length - q.limit) := by
    rw [h.shown, Query.limited, hlimit]
  rcases Nat.lt_or_ge q.limit all.sortedSet.length with hlen | hlen
  · have hsize : v.documentSet.size = q.limit := by
      rw [DocumentSet.size_eq_length, hshown, List.length_drop]
      omega
    cases hfirst : v.documentSet.sortedSet.head? with
    | none =>
      have hzero : q.limit = 0 := by
        rw [← hsize, DocumentSet.size_eq_length, List.head?_eq_none_iff.mp hfirst]
        rfl
      rw [hzero, Nat.sub_zero, Nat.sub_zero, List.drop_length, List.drop_length]
    | some bound =>
      have hbound : (v.pass none).firstDocInLimit = some bound :=
        (if_pos ⟨hlimit, hsize⟩).trans hfirst
      have hpatched := h.patched
      rw [hshown] at hpatched hfirst
      refine hpatched.drop_eq all.sorted new.sorted known.sorted all.keys_nodup hlen.le hfirst
        fun o ho => ?_
      refine h.exists_within (by rw [hbound, Option.isSome_some, Bool.or_true])
        (fun d hd => outsideLimit_first hbound hd) (fun o d hkey hdata hwo => ?_)
        (hshown ▸ ho) ((all.sorted.sublist (List.drop_sublist _ _)).head_le ho hfirst)
      have hsame : q.comparator.compare bound o = q.comparator.compare bound d := by
        simp only [DocumentComparator.compare, hkey, hdata]
      rwa [← hsame]
  · rw [h.same (by rw [hshown, Nat.sub_eq_zero_of_le hlen, List.drop_zero])]

theorem limited_eq (h : Passed v m all known new) :
    q.limited known.sortedSet = q.limited new.sortedSet := by
  unfold Query.limited
  cases hlimit : q.limitType with
  | none => exact h.same (h.shown.trans (by rw [Query.limited, hlimit]))
  | first => exact h.take_eq hlimit
  | last => exact h.drop_eq hlimit

end Passed

end Limit

abbrev Selected (V : Type) := DocumentKey → Option (Document V)

/-- The selected documents after some have changed. -/
def Selected.patch (q : Query V) (sel : Selected V) (m : MaybeDocumentMap V) : Selected V :=
  fun k => match m[k]? with
    | none => sel k
    | some x => q.select (some x)

def Selects (q : Query V) (sel : Selected V) : Prop :=
  ∀ k d, sel k = some d → d.key = k ∧ q.matchesDocument d

/-- The documents are those of some set that lags behind the selected ones, up to the limit. -/
def Shows (q : Query V) (documents : DocumentSet q.comparator) (sel : Selected V)
    (past : Document V → Prop) : Prop :=
  ∃ all : DocumentSet q.comparator, (∀ k, Lags past (sel k) (all.getDocument k)) ∧
    documents.sortedSet = q.limited all.sortedSet

def View.Showed (v : View q) (d : Document V) : Prop := v.documentSet.getDocument d.key = some d

section Compute
variable {v : View q} {sel : Selected V} {m results : MaybeDocumentMap V}
  {past : Document V → Prop} {documents : DocumentSet q.comparator}

omit [DecidableEq V] in
theorem Query.limited_subset (l : List (Document V)) : q.limited l ⊆ l := by
  unfold Query.limited
  cases q.limitType with
  | none => exact List.Subset.refl l
  | first => exact List.take_subset _ _
  | last => exact List.drop_subset _ _

omit [DecidableEq V] in
theorem Shows.lags (h : Shows q documents sel past) {k : DocumentKey} {o : Document V}
    (ho : documents.getDocument k = some o) : Lags past (sel k) (some o) := by
  obtain ⟨all, hlags, hlist⟩ := h
  have hmem : o ∈ all.sortedSet :=
    q.limited_subset _ (hlist ▸ DocumentSet.mem_of_getDocument ho)
  rw [all.mem_iff, documents.getDocument_key ho] at hmem
  exact hmem ▸ hlags k

omit [DecidableEq V] in
theorem Keyed.select_key (hm : Keyed m) {k : DocumentKey} {x : MaybeDocument V}
    (hk : m[k]? = some x) {d : Document V} (hd : q.select (some x) = some d) : d.key = k := by
  obtain ⟨hx, -⟩ := q.select_eq_some.mp hd
  obtain rfl := Option.some.inj hx
  exact hm k d hk

omit [DecidableEq V] in
theorem Selects.patch (h : Selects q sel) (hm : Keyed m) : Selects q (sel.patch q m) := by
  intro k d hd
  unfold Selected.patch at hd
  cases hk : m[k]? with
  | none =>
    rw [hk] at hd
    exact h k d hd
  | some x =>
    rw [hk] at hd
    exact ⟨hm.select_key hk hd, (q.select_eq_some.mp hd).2⟩

theorem View.Marked.lags_nextDocument (hv : v.Marked) (hm : Keyed m) {k : DocumentKey}
    {x : MaybeDocument V} (hk : m[k]? = some x) : Lags v.Showed (q.select (some x))
      ((v.pass none).nextDocument k (v.documentSet.getDocument k) (q.select (some x))) := by
  refine Lags.imp (Pass.lags_nextDocument (fun d hd => v.documentSet.getDocument_key hd)
    (fun d hd => hm.select_key hk hd) fun d hd => ?_) fun d _ hd => ?_
  · change k ∈ v.mutatedKeys ↔ _
    rw [hv, hd]
    simp
  · rw [View.Showed, v.documentSet.getDocument_key hd]
    exact hd

/-- The first pass: when it asks for no refill, it has found what the query should show. What
waits was shown before. -/
theorem compute_changes (hv : v.Marked) (hshows : Shows q v.documentSet sel past) (hm : Keyed m) :
    ∃ c, v.computeDocumentChanges m none = some c ∧ Accounts v.documentSet c ∧
      (∀ k o, c.documentSet.getDocument k = some o →
        Lags v.Showed (sel.patch q m k) (some o)) ∧
      (c.needsRefill = false →
        Shows q c.documentSet (sel.patch q m) fun d => past d ∨ v.Showed d) := by
  obtain ⟨acc, hloop, hacc, L⟩ := looped hm hv.accounts
  obtain ⟨c, hlimit, hc, hrefill, hlist⟩ := ViewDocumentChanges.applyLimit_eq hacc
  refine ⟨c, ?_, hc, fun k o ho => ?_, fun hno => ?_⟩
  · rw [View.computeDocumentChanges, hloop, Option.bind_some, hlimit]
    simp
  · have hmem : o ∈ acc.documentSet.sortedSet :=
      q.limited_subset _ (hlist ▸ DocumentSet.mem_of_getDocument ho)
    have hkey := c.documentSet.getDocument_key ho
    rw [acc.documentSet.mem_iff, hkey] at hmem
    unfold Selected.patch
    cases hk : m[k]? with
    | none =>
      rw [L.others k hk] at hmem
      have hold : v.documentSet.getDocument k = some o := hmem
      refine (hshows.lags hold).imp fun d hd _ => ?_
      obtain rfl := Option.some.inj hd
      rw [View.Showed, hkey]
      exact hold
    | some x =>
      have hlags := hv.lags_nextDocument hm hk
      rw [L.own k x hk] at hmem
      change (v.pass none).nextDocument k (v.documentSet.getDocument k) _ = _ at hmem
      rwa [hmem] at hlags
  · obtain ⟨all, hall, hv'⟩ := hshows
    obtain ⟨new, hnew⟩ := exists_patched all acc.documentSet.getDocument
      (fun k d hd => acc.documentSet.getDocument_key hd) m.keys
    have hmem : ∀ k, k ∈ m.keys ↔ m[k]? ≠ none := by
      intro k
      rw [Std.ExtTreeMap.mem_keys, Std.ExtTreeMap.mem_iff_isSome_getElem?,
        Option.isSome_iff_ne_none]
    refine ⟨new, fun k => ?_, ?_⟩
    · rw [hnew k]
      unfold Selected.patch
      cases hk : m[k]? with
      | none =>
        simp only [hmem, hk, ne_eq, not_true, if_false]
        exact (hall k).imp fun d _ hd => .inl hd
      | some x =>
        rw [if_pos ((hmem k).mpr (by simp [hk])), L.own k x hk]
        exact (hv.lags_nextDocument hm hk).imp fun d _ hd => .inr hd
    · rw [hlist]
      rw [hrefill] at hno
      exact Passed.limited_eq (m := m) {
        keyed := hm
        shown := hv'
        kept := L.others
        keptNew := fun k hk => (hnew k).trans (if_neg (by simp [hmem, hk]))
        edited := fun k x hk =>
          ⟨L.own k x hk, (hnew k).trans (if_pos ((hmem k).mpr (by simp [hk])))⟩
        refill := L.refill.mp hno }

/-- What `ExecuteQuery` finds: the selected documents, some perhaps without their versions. -/
def Executed (results : MaybeDocumentMap V) (sel : Selected V) : Prop :=
  ∀ k : DocumentKey, ∃ doc : Option (Document V), results[k]? = doc.map MaybeDocument.document ∧
    doc.map Document.unversioned = (sel k).map Document.unversioned

omit [DecidableEq V] in
theorem Executed.found (h : Executed results sel) (hsel : Selects q sel) :
    ∃ sel' : Selected V, (∀ k, results[k]? = (sel' k).map MaybeDocument.document) ∧
      (∀ k, (sel' k).map Document.unversioned = (sel k).map Document.unversioned) ∧
      Selects q sel' ∧ Keyed results := by
  choose sel' hresults hsame using h
  have hsel' : Selects q sel' := by
    intro k d' hd'
    have hk := hsame k
    rw [hd', Option.map_some, eq_comm, Option.map_eq_some_iff] at hk
    obtain ⟨d, hd, he⟩ := hk
    obtain ⟨hkey, hmatches⟩ := hsel k d hd
    have hkey' : d'.key = d.key := (congrArg Prod.fst he).symm
    have hdata' : d'.data = d.data := (congrArg (fun x => x.2.1) he).symm
    exact ⟨hkey'.trans hkey, (q.matchesDocument_congr hkey' hdata').trans hmatches⟩
  refine ⟨sel', hresults, hsame, hsel', fun k d hk => ?_⟩
  rw [hresults k, Option.map_eq_some_iff] at hk
  obtain ⟨d', hd', he⟩ := hk
  obtain rfl := MaybeDocument.document.inj he
  exact (hsel' k d' hd').1

/-- The second pass finds what the query should show, and asks for no further one. -/
theorem compute_refill {c : ViewDocumentChanges q} (hc : Accounts v.documentSet c)
    (hlags : ∀ k o, c.documentSet.getDocument k = some o → Lags past (sel k) (some o))
    (hsel : Selects q sel) (hexecuted : Executed results sel) :
    ∃ c', v.computeDocumentChanges results (some c) = some c' ∧ Accounts v.documentSet c' ∧
      c'.needsRefill = false ∧ Shows q c'.documentSet sel past := by
  obtain ⟨sel', hresults, hsame, hsel', hkeyed⟩ := hexecuted.found hsel
  have hselect : ∀ k d, sel' k = some d → q.select (some (.document d)) = some d :=
    fun k d hd => q.select_eq_some.mpr ⟨rfl, (hsel' k d hd).2⟩
  have hlags' : ∀ k o, c.documentSet.getDocument k = some o → Lags past (sel' k) (some o) :=
    fun k o ho => (hlags k o ho).unversioned (hsame k).symm
  have hstart : Accounts v.documentSet (v.start (some c)) := ⟨hc.nets, hc.mutated⟩
  obtain ⟨acc, hloop, hacc, L⟩ := looped hkeyed hstart
  obtain ⟨c', hlimit, hc', hrefill, hlist⟩ := ViewDocumentChanges.applyLimit_eq hacc
  -- one key: a shown document is kept or confirmed, any other one is added
  have hkey : ∀ k d, sel' k = some d →
      ((v.pass (some c)).calculateChange k (c.documentSet.getDocument k) (some d)).2 = false ∧
        Lags past (some d)
          ((v.pass (some c)).nextDocument k (c.documentSet.getDocument k) (some d)) := by
    intro k d hd
    cases ho : c.documentSet.getDocument k with
    | none => exact ⟨rfl, Lags.refl _⟩
    | some o => exact Pass.nextDocument_of_lags (hd ▸ hlags' k o ho)
  have hno : acc.needsRefill = false := by
    rw [L.refill]
    intro k x hk
    rw [hresults k, Option.map_eq_some_iff] at hk
    obtain ⟨d, hd, rfl⟩ := hk
    rw [hselect k d hd]
    exact (hkey k d hd).1
  refine ⟨c', ?_, hc', hrefill.trans hno, acc.documentSet, fun k => ?_, hlist⟩
  · rw [View.computeDocumentChanges, hloop, Option.bind_some, hlimit, Option.bind_some,
      hrefill, hno]
    rfl
  · refine Lags.unversioned ?_ (hsame k)
    cases hd : sel' k with
    | none =>
      have hnone : acc.documentSet.getDocument k = none := by
        rw [L.others k (by rw [hresults k, hd]; rfl)]
        cases ho : c.documentSet.getDocument k with
        | none => exact ho
        | some o =>
          have habsurd := hlags' k o ho
          rw [hd] at habsurd
          cases habsurd
      rw [hnone]
      exact .absent
    | some d =>
      have hk : results[k]? = some (.document d) := by rw [hresults k, hd]; rfl
      rw [L.own k _ hk, hselect k d hd]
      exact (hkey k d hd).2

end Compute

end Firestore
