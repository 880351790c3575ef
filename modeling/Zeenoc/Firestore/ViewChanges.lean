import Zeenoc.Firestore.View

/-! What `View::ComputeDocumentChanges` computes, key by key and under the limit. -/

namespace Firestore
variable {V : Type} {q : Query V}

def Pass.nextDocument [DecidableEq V] (p : Pass q) (key : DocumentKey)
    (oldDoc newDoc : Option (Document V)) :
    Option (Document V) :=
  match (p.calculateChange key oldDoc newDoc).1 with
  | none => oldDoc
  | some _ => newDoc

/-- The changes and the mutated keys, as they belong to the documents; `base` are the documents
that the changes start from. -/
structure Accounts (base : DocumentSet q.comparator) (acc : ViewDocumentChanges q) : Prop where
  nets : ∀ k, Nets (base.getDocument k) (acc.documentSet.getDocument k) acc.changeSet[k]?
  mutated : ∀ k, k ∈ acc.mutatedKeys ↔
    ∃ d, acc.documentSet.getDocument k = some d ∧ d.hasLocalMutations

namespace Pass
variable {p : Pass q} {base : DocumentSet q.comparator} {acc : ViewDocumentChanges q}
  {key : DocumentKey} {oldDoc newDoc : Option (Document V)} {change : DocumentViewChange V}
  {refill : Bool}

theorem getDocument_apply (hnew : ∀ d, newDoc = some d → d.key = key)
    (changeSet : DocumentViewChangeSet V) (k : DocumentKey) :
    (apply acc changeSet key newDoc refill).documentSet.getDocument k =
      if k = key then newDoc else acc.documentSet.getDocument k := by
  cases newDoc with
  | none => exact acc.documentSet.getDocument_erase key k
  | some d =>
    have hd := hnew d rfl
    subst hd
    exact acc.documentSet.getDocument_insert d k

theorem mem_mutatedKeys_apply (changeSet : DocumentViewChangeSet V) (k : DocumentKey) :
    k ∈ (apply acc changeSet key newDoc refill).mutatedKeys ↔
      if k = key then ∃ d, newDoc = some d ∧ d.hasLocalMutations else k ∈ acc.mutatedKeys := by
  cases newDoc with
  | none =>
    change k ∈ acc.mutatedKeys.erase key ↔ _
    rw [Std.ExtTreeSet.mem_erase]
    by_cases hk : k = key
    · simp [hk]
    · simp [hk, Ne.symm hk]
  | some d =>
    change k ∈ (if d.hasLocalMutations then acc.mutatedKeys.insert key
      else acc.mutatedKeys.erase key) ↔ _
    by_cases hd : d.hasLocalMutations
    · rw [if_pos hd, Std.ExtTreeSet.mem_insert]
      by_cases hk : k = key
      · simp [hk, hd]
      · simp [hk, Ne.symm hk]
    · rw [if_neg hd, Std.ExtTreeSet.mem_erase]
      by_cases hk : k = key
      · simp [hk, hd]
      · simp [hk, Ne.symm hk]

theorem apply_changeSet (changeSet : DocumentViewChangeSet V) :
    (apply acc changeSet key newDoc refill).changeSet = changeSet := by
  cases newDoc <;> rfl

theorem apply_needsRefill (changeSet : DocumentViewChangeSet V) :
    (apply acc changeSet key newDoc refill).needsRefill = (acc.needsRefill || refill) := by
  cases newDoc <;> rfl

theorem newDocument_eq {m : MaybeDocument V} (hm : ∀ d, m.document? = some d → d.key = key) :
    newDocument q key m = some (q.select (some m)) := by
  unfold newDocument Query.select
  cases hd : m.document? with
  | none => simp [hd]
  | some d =>
    simp only [Option.bind_some, hd, hm d hd, if_true]
    by_cases hmatch : q.matchesDocument d <;> simp [Option.filter_some, hmatch]

variable [DecidableEq V]

theorem calculateChange_says (h : (p.calculateChange key oldDoc newDoc).1 = some change)
    (hold : ∀ d, oldDoc = some d → d.key = key) (hnew : ∀ d, newDoc = some d → d.key = key) :
    Says oldDoc newDoc change := by
  cases oldDoc with
  | none =>
    cases newDoc with
    | none => cases h
    | some newDoc =>
      obtain rfl := Option.some.inj h
      exact .added newDoc
  | some oldDoc =>
    cases newDoc with
    | none =>
      obtain rfl := Option.some.inj h
      exact .removed oldDoc
    | some newDoc =>
      have hkeys : oldDoc.key = newDoc.key := (hold _ rfl).trans (hnew _ rfl).symm
      simp only [calculateChange] at h
      split_ifs at h with hdata hwait hpending
      · obtain rfl := Option.some.inj h
        exact .modified oldDoc newDoc hkeys
      · obtain rfl := Option.some.inj h
        exact .metadata oldDoc newDoc hkeys (not_not.mp hdata)

theorem calculateChange_none (h : (p.calculateChange key oldDoc newDoc).1 = none) :
    (p.calculateChange key oldDoc newDoc).2 = false := by
  cases oldDoc with
  | none => cases newDoc <;> simp [calculateChange] at h ⊢
  | some oldDoc =>
    cases newDoc with
    | none => simp [calculateChange] at h
    | some newDoc =>
      simp only [calculateChange] at h ⊢
      split_ifs at h ⊢ <;> simp_all

/-- One key: its own document and change are as calculated, and the others stay. -/
structure Stepped (p : Pass q) (acc acc' : ViewDocumentChanges q) (key : DocumentKey)
    (newDoc : Option (Document V)) : Prop where
  own : acc'.documentSet.getDocument key =
    p.nextDocument key (p.oldDocumentSet.getDocument key) newDoc
  others : ∀ k, k ≠ key → acc'.documentSet.getDocument k = acc.documentSet.getDocument k
  change : acc.changeSet[key]? = none →
    acc'.changeSet[key]? = (p.calculateChange key (p.oldDocumentSet.getDocument key) newDoc).1
  changes : ∀ k, k ≠ key → acc'.changeSet[k]? = acc.changeSet[k]?
  refill : acc'.needsRefill =
    (acc.needsRefill || (p.calculateChange key (p.oldDocumentSet.getDocument key) newDoc).2)

theorem step_eq {maybeNewDoc : MaybeDocument V} (hacc : Accounts base acc)
    (hold : acc.documentSet.getDocument key = p.oldDocumentSet.getDocument key)
    (hmaybe : newDocument q key maybeNewDoc = some newDoc)
    (hnew : ∀ d, newDoc = some d → d.key = key) :
    ∃ acc', p.step acc (key, maybeNewDoc) = some acc' ∧ Accounts base acc' ∧
      Stepped p acc acc' key newDoc := by
  have holdKey : ∀ d, p.oldDocumentSet.getDocument key = some d → d.key = key :=
    fun d hd => p.oldDocumentSet.getDocument_key hd
  unfold step
  simp only [hmaybe, Option.bind_some]
  rcases hcalc : p.calculateChange key (p.oldDocumentSet.getDocument key) newDoc with
    ⟨_ | change, refill⟩
  · obtain rfl : refill = false := by
      have hrefill := calculateChange_none (p := p) (by rw [hcalc])
      rwa [hcalc] at hrefill
    refine ⟨acc, rfl, hacc, ?_, fun _ _ => rfl, fun h => ?_, fun _ _ => rfl, ?_⟩
    · rw [hold, nextDocument, hcalc]
    · rw [h, hcalc]
    · rw [hcalc, Bool.or_false]
  · have hsaid := calculateChange_says (p := p) (by rw [hcalc]) holdKey hnew
    have hkey : change.document.key = key := hsaid.key_eq holdKey hnew
    have hbase : ∀ o, base.getDocument key = some o → o.key = change.document.key :=
      fun o ho => (base.getDocument_key ho).trans hkey.symm
    have hnets := hacc.nets key
    rw [hold] at hnets
    subst hkey
    obtain ⟨changeSet, hadd, hown, hothers⟩ :=
      DocumentViewChangeSet.addChange_says hnets hbase hsaid
    refine ⟨apply acc changeSet change.document.key newDoc refill,
      by simp only [hadd, Option.map_some], ⟨fun k => ?_, fun k => ?_⟩, ?_, fun k hk => ?_,
      fun h => ?_, fun k hk => ?_, ?_⟩
    · rw [getDocument_apply hnew, apply_changeSet]
      by_cases hk : k = change.document.key
      · rw [if_pos hk, hk]
        exact hown
      · rw [if_neg hk, hothers k hk]
        exact hacc.nets k
    · rw [mem_mutatedKeys_apply, getDocument_apply hnew]
      by_cases hk : k = change.document.key
      · rw [if_pos hk, if_pos hk]
      · rw [if_neg hk, if_neg hk]
        exact hacc.mutated k
    · rw [getDocument_apply hnew, if_pos rfl, nextDocument, hcalc]
    · rw [getDocument_apply hnew, if_neg hk]
    · obtain rfl : acc.changeSet.insert change.document.key change = changeSet := by
        simpa [DocumentViewChangeSet.addChange, h] using hadd
      rw [apply_changeSet, hcalc]
      simp
    · rw [apply_changeSet, hothers k hk]
    · rw [apply_needsRefill, hcalc]

structure Worked (p : Pass q) (acc acc' : ViewDocumentChanges q)
    (l : List (DocumentKey × MaybeDocument V)) : Prop where
  own : ∀ e ∈ l, acc'.documentSet.getDocument e.1 =
    p.nextDocument e.1 (p.oldDocumentSet.getDocument e.1) (q.select (some e.2))
  others : ∀ k, k ∉ l.map Prod.fst →
    acc'.documentSet.getDocument k = acc.documentSet.getDocument k
  change : ∀ e ∈ l, acc.changeSet[e.1]? = none → acc'.changeSet[e.1]? =
    (p.calculateChange e.1 (p.oldDocumentSet.getDocument e.1) (q.select (some e.2))).1
  changes : ∀ k, k ∉ l.map Prod.fst → acc'.changeSet[k]? = acc.changeSet[k]?
  refill : acc'.needsRefill = (acc.needsRefill || l.any fun e =>
    (p.calculateChange e.1 (p.oldDocumentSet.getDocument e.1) (q.select (some e.2))).2)

theorem foldlM_step {l : List (DocumentKey × MaybeDocument V)} (hl : (l.map Prod.fst).Nodup)
    (hkeys : ∀ e ∈ l, ∀ d, e.2.document? = some d → d.key = e.1) (hacc : Accounts base acc)
    (hold : ∀ e ∈ l, acc.documentSet.getDocument e.1 = p.oldDocumentSet.getDocument e.1) :
    ∃ acc', l.foldlM p.step acc = some acc' ∧ Accounts base acc' ∧ Worked p acc acc' l := by
  -- over the changed documents: their keys differ, so each is worked on once
  induction l generalizing acc with
  | nil =>
    refine ⟨acc, rfl, hacc, by simp, fun _ _ => rfl, by simp, fun _ _ => rfl, by simp⟩
  | cons e l ih =>
    obtain ⟨key, m⟩ := e
    rw [List.map_cons, List.nodup_cons] at hl
    have hm := hkeys (key, m) List.mem_cons_self
    obtain ⟨acc₁, hstep, hacc₁, S⟩ := step_eq hacc (hold _ List.mem_cons_self)
      (newDocument_eq hm) (fun d hd => q.select_key hm hd)
    have hne : ∀ e ∈ l, e.1 ≠ key := fun e he hek => hl.1 (List.mem_map.mpr ⟨e, he, hek⟩)
    obtain ⟨acc', hloop, hacc', W⟩ := ih hl.2 (fun e he => hkeys e (List.mem_cons_of_mem _ he))
      hacc₁ (fun e he => by rw [S.others _ (hne e he), hold e (List.mem_cons_of_mem _ he)])
    refine ⟨acc', by simp [List.foldlM_cons, hstep, hloop], hacc', ?_, fun k hk => ?_, ?_,
      fun k hk => ?_, ?_⟩
    · intro e he
      rcases List.mem_cons.mp he with rfl | he
      · rw [W.others _ hl.1, S.own]
      · exact W.own e he
    · rw [List.map_cons, List.mem_cons, not_or] at hk
      rw [W.others k hk.2, S.others k hk.1]
    · intro e he hnone
      rcases List.mem_cons.mp he with rfl | he
      · rw [W.changes _ hl.1, S.change hnone]
      · exact W.change e he (by rw [S.changes _ (hne e he), hnone])
    · rw [List.map_cons, List.mem_cons, not_or] at hk
      rw [W.changes k hk.2, S.changes k hk.1]
    · rw [W.refill, S.refill, List.any_cons, Bool.or_assoc]

end Pass

def Keyed (m : MaybeDocumentMap V) : Prop :=
  ∀ (k : DocumentKey) (d : Document V), m[k]? = some (MaybeDocument.document d) → d.key = k

section Loop
variable [DecidableEq V] {v : View q} {previous : Option (ViewDocumentChanges q)}
  {m : MaybeDocumentMap V}
  {base : DocumentSet q.comparator}

structure Looped (v : View q) (previous : Option (ViewDocumentChanges q))
    (m : MaybeDocumentMap V) (acc : ViewDocumentChanges q) : Prop where
  own : ∀ (k : DocumentKey) x, m[k]? = some x → acc.documentSet.getDocument k =
    (v.pass previous).nextDocument k
    ((v.start previous).documentSet.getDocument k) (q.select (some x))
  others : ∀ k : DocumentKey, m[k]? = none →
    acc.documentSet.getDocument k = (v.start previous).documentSet.getDocument k
  change : (v.start previous).changeSet = ∅ → ∀ (k : DocumentKey) x, m[k]? = some x →
    acc.changeSet[k]? =
    ((v.pass previous).calculateChange k ((v.start previous).documentSet.getDocument k)
      (q.select (some x))).1
  changes : (v.start previous).changeSet = ∅ → ∀ k : DocumentKey, m[k]? = none →
    acc.changeSet[k]? = none
  refill : acc.needsRefill = false ↔ ∀ (k : DocumentKey) x, m[k]? = some x →
    ((v.pass previous).calculateChange k ((v.start previous).documentSet.getDocument k)
      (q.select (some x))).2 = false

theorem looped (hm : Keyed m) (hstart : Accounts base (v.start previous)) :
    ∃ acc, m.toList.foldlM (v.pass previous).step (v.start previous) = some acc ∧
      Accounts base acc ∧ Looped v previous m acc := by
  have hmem : ∀ (k : DocumentKey) x, (k, x) ∈ m.toList ↔ m[k]? = some x :=
    fun k x => Std.ExtTreeMap.mem_toList_iff_getElem?_eq_some
  have hnodup : (m.toList.map Prod.fst).Nodup := by
    rw [Std.ExtTreeMap.map_fst_toList_eq_keys]
    exact Std.ExtTreeMap.nodup_keys
  have hkeys : ∀ e ∈ m.toList, ∀ d, e.2.document? = some d → d.key = e.1 := by
    rintro ⟨k, x⟩ he d hd
    cases x with
    | document d' =>
      obtain rfl := Option.some.inj hd
      exact hm k d' ((hmem k _).mp he)
    | noDocument => cases hd
    | unknownDocument => cases hd
  have habsent : ∀ k : DocumentKey, m[k]? = none → k ∉ m.toList.map Prod.fst := by
    intro k hk hin
    obtain ⟨⟨k', x⟩, he, rfl⟩ := List.mem_map.mp hin
    rw [(hmem k' x).mp he] at hk
    cases hk
  obtain ⟨acc, hloop, hacc, W⟩ := Pass.foldlM_step (p := v.pass previous) hnodup hkeys hstart
    (fun _ _ => rfl)
  refine ⟨acc, hloop, hacc, ?_, ?_, ?_, ?_, ?_⟩
  · exact fun k x hx => W.own (k, x) ((hmem k x).mpr hx)
  · exact fun k hk => W.others k (habsent k hk)
  · intro hempty k x hx
    exact W.change (k, x) ((hmem k x).mpr hx) (by rw [hempty]; exact Std.ExtTreeMap.getElem?_empty)
  · intro hempty k hk
    rw [W.changes k (habsent k hk), hempty]
    exact Std.ExtTreeMap.getElem?_empty
  · have hfalse : (v.start previous).needsRefill = false := by cases previous <;> rfl
    rw [W.refill, hfalse, Bool.false_or, List.any_eq_false]
    constructor
    · exact fun h k x hx => Bool.eq_false_iff.mpr (h (k, x) ((hmem k x).mpr hx))
    · exact fun h e he => Bool.eq_false_iff.mp (h e.1 e.2 ((hmem e.1 e.2).mp he))

end Loop

def Query.limited (q : Query V) (l : List (Document V)) : List (Document V) :=
  match q.limitType with
  | .none => l
  | .first => l.take q.limit
  | .last => l.drop (l.length - q.limit)

namespace ViewDocumentChanges
variable {base : DocumentSet q.comparator} {acc : ViewDocumentChanges q}

theorem drop_eq {i : ℕ} (hacc : Accounts base acc) (hi : i ≤ acc.documentSet.sortedSet.length) :
    ∃ acc', drop i acc = some acc' ∧ Accounts base acc' ∧ acc'.needsRefill = acc.needsRefill ∧
      acc'.documentSet.sortedSet = if q.limitType = .first then
        acc.documentSet.sortedSet.take (acc.documentSet.sortedSet.length - i)
      else acc.documentSet.sortedSet.drop i := by
  induction i generalizing acc with
  | zero => exact ⟨acc, rfl, hacc, rfl, by simp⟩
  | succ i ih =>
    have hne : acc.documentSet.sortedSet ≠ [] := List.ne_nil_of_length_pos (by omega)
    -- the document that is dropped first, and the list without it
    obtain ⟨d, hd, hget, herase⟩ : ∃ d, (if q.limitType = .first then
        acc.documentSet.getLastDocument else acc.documentSet.getFirstDocument) = some d ∧
        acc.documentSet.getDocument d.key = some d ∧
        (acc.documentSet.erase d.key).sortedSet = if q.limitType = .first then
          acc.documentSet.sortedSet.dropLast else acc.documentSet.sortedSet.tail := by
      by_cases hfirst : q.limitType = .first
      · have hlast := List.getLast?_eq_some_getLast hne
        refine ⟨_, (if_pos hfirst).trans hlast, DocumentSet.getDocument_getLast hlast, ?_⟩
        rw [if_pos hfirst, DocumentSet.sortedSet_erase_last hlast]
      · have hhead := List.head?_eq_some_head hne
        refine ⟨_, (if_neg hfirst).trans hhead, DocumentSet.getDocument_getFirst hhead, ?_⟩
        rw [if_neg hfirst, DocumentSet.sortedSet_erase_first hhead]
    have hnets := hacc.nets d.key
    rw [hget] at hnets
    obtain ⟨changeSet, hadd, hown, hothers⟩ := DocumentViewChangeSet.addChange_says hnets
      (fun o ho => base.getDocument_key ho) (.removed d)
    have hacc₁ : Accounts base {
        documentSet := acc.documentSet.erase d.key
        changeSet := changeSet
        mutatedKeys := acc.mutatedKeys.erase d.key
        needsRefill := acc.needsRefill } := by
      refine ⟨fun k => ?_, fun k => ?_⟩
      · rw [DocumentSet.getDocument_erase]
        by_cases hk : k = d.key
        · rw [if_pos hk, hk]
          exact hown
        · rw [if_neg hk, hothers k hk]
          exact hacc.nets k
      · rw [DocumentSet.getDocument_erase, Std.ExtTreeSet.mem_erase]
        by_cases hk : k = d.key
        · simp [hk]
        · rw [if_neg hk, ← hacc.mutated k]
          simp [Ne.symm hk]
    have hlen : (acc.documentSet.erase d.key).sortedSet.length =
        acc.documentSet.sortedSet.length - 1 := by
      rw [herase]
      split_ifs <;> simp
    obtain ⟨acc', hdrop, hacc', hrefill, hlist⟩ := ih hacc₁ (by rw [hlen]; omega)
    refine ⟨acc', ?_, hacc', hrefill, ?_⟩
    · rw [drop, hd, Option.bind_some, hadd, Option.bind_some, hdrop]
    · rw [hlist, hlen, herase]
      split_ifs with hfirst
      · rw [List.dropLast_eq_take, List.take_take]
        congr 1
        omega
      · rw [← List.drop_one, List.drop_drop, Nat.add_comm]

theorem applyLimit_eq (hacc : Accounts base acc) :
    ∃ acc', acc.applyLimit = some acc' ∧ Accounts base acc' ∧ acc'.needsRefill = acc.needsRefill ∧
      acc'.documentSet.sortedSet = q.limited acc.documentSet.sortedSet := by
  have hsize := acc.documentSet.size_eq_length
  unfold applyLimit
  split_ifs with h
  · obtain ⟨acc', hdrop, hacc', hrefill, hlist⟩ :=
      drop_eq (i := acc.documentSet.size - q.limit) hacc (by omega)
    refine ⟨acc', hdrop, hacc', hrefill, ?_⟩
    rw [hlist, hsize]
    unfold Query.limited
    cases hlimit : q.limitType with
    | none => exact absurd hlimit h.1
    | first =>
      rw [if_pos rfl]
      congr 1
      omega
    | last => rw [if_neg (by decide)]
  · refine ⟨acc, rfl, hacc, rfl, ?_⟩
    unfold Query.limited
    cases hlimit : q.limitType with
    | none => rfl
    | first =>
      have hle : acc.documentSet.sortedSet.length ≤ q.limit := by
        by_contra hlt
        exact h ⟨by simp [hlimit], by omega⟩
      exact (List.take_of_length_le hle).symm
    | last =>
      have hle : acc.documentSet.sortedSet.length ≤ q.limit := by
        by_contra hlt
        exact h ⟨by simp [hlimit], by omega⟩
      simp [Nat.sub_eq_zero_of_le hle]

end ViewDocumentChanges

end Firestore
