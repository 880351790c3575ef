import Zeenoc.Firestore.Query
import Zeenoc.Library.Runs

/-! The changes of a view (`view_snapshot.cc`): a change set keeps one merged change for each
document. A `HARD_FAIL` is `none`. -/

namespace Firestore
variable {V : Type}

/-- `DocumentViewChange::Type` -/
inductive ViewChangeType where
  | removed
  | added
  | modified
  | metadata
  deriving DecidableEq

structure DocumentViewChange (V : Type) where
  document : Document V
  type : ViewChangeType
  deriving DecidableEq

abbrev DocumentViewChangeSet (V : Type) := Std.ExtTreeMap DocumentKey (DocumentViewChange V)

namespace DocumentViewChangeSet

def addChange (s : DocumentViewChangeSet V) (change : DocumentViewChange V) :
    Option (DocumentViewChangeSet V) :=
  let key := change.document.key
  match s[key]? with
  | none => some (s.insert key change)
  | some old =>
    if change.type ≠ .added ∧ old.type = .metadata then
      some (s.insert key change)
    else if change.type = .metadata ∧ old.type ≠ .removed then
      some (s.insert key ⟨change.document, old.type⟩)
    else if change.type = .modified ∧ old.type = .modified then
      some (s.insert key ⟨change.document, .modified⟩)
    else if change.type = .modified ∧ old.type = .added then
      some (s.insert key ⟨change.document, .added⟩)
    else if change.type = .removed ∧ old.type = .added then
      some (s.erase key)
    else if change.type = .removed ∧ old.type = .modified then
      some (s.insert key ⟨old.document, .removed⟩)
    else if change.type = .added ∧ old.type = .removed then
      some (s.insert key ⟨change.document, .modified⟩)
    else none

def getChanges (s : DocumentViewChangeSet V) : List (DocumentViewChange V) :=
  s.toList.map Prod.snd

end DocumentViewChangeSet

inductive Says : Option (Document V) → Option (Document V) → DocumentViewChange V → Prop
  | added (d : Document V) : Says none (some d) ⟨d, .added⟩
  | removed (d : Document V) : Says (some d) none ⟨d, .removed⟩
  | modified (o d : Document V) (hkey : o.key = d.key) : Says (some o) (some d) ⟨d, .modified⟩
  | metadata (o d : Document V) (hkey : o.key = d.key) (hdata : o.data = d.data) :
      Says (some o) (some d) ⟨d, .metadata⟩

/-- The change that a set keeps of a document that was `old` at first and is `cur` now. A removed
document may be kept with data that it got after `old`. -/
inductive Nets : Option (Document V) → Option (Document V) → Option (DocumentViewChange V) → Prop
  | same (o : Option (Document V)) : Nets o o none
  | added (d : Document V) : Nets none (some d) (some ⟨d, .added⟩)
  | removed (o d : Document V) (hkey : o.key = d.key) : Nets (some o) none (some ⟨d, .removed⟩)
  | modified (o d : Document V) (hkey : o.key = d.key) :
      Nets (some o) (some d) (some ⟨d, .modified⟩)
  | metadata (o d : Document V) (hkey : o.key = d.key) (hdata : o.data = d.data) :
      Nets (some o) (some d) (some ⟨d, .metadata⟩)

theorem Says.key_eq {cur next : Option (Document V)} {change : DocumentViewChange V}
    (h : Says cur next change) {k : DocumentKey} (hcur : ∀ d, cur = some d → d.key = k)
    (hnext : ∀ d, next = some d → d.key = k) : change.document.key = k := by
  cases h with
  | added d => exact hnext d rfl
  | removed d => exact hcur d rfl
  | modified o d => exact hnext d rfl
  | metadata o d => exact hnext d rfl

namespace DocumentViewChangeSet

@[simp] theorem getChanges_empty : getChanges (∅ : DocumentViewChangeSet V) = [] := by
  simp [getChanges]

/-- A change that says where the document goes from where it is can be added, and nothing but its
own entry changes. -/
theorem addChange_says {s : DocumentViewChangeSet V} {old cur next : Option (Document V)}
    {change : DocumentViewChange V} (hs : Nets old cur s[change.document.key]?)
    (hkey : ∀ o, old = some o → o.key = change.document.key) (h : Says cur next change) :
    ∃ s', s.addChange change = some s' ∧ Nets old next s'[change.document.key]? ∧
      ∀ k, k ≠ change.document.key → s'[k]? = s[k]? := by
  have hput : ∀ c : DocumentViewChange V, Nets old next (some c) →
      Nets old next (s.insert change.document.key c)[change.document.key]? ∧
        ∀ k, k ≠ change.document.key → (s.insert change.document.key c)[k]? = s[k]? := by
    intro c hc
    refine ⟨by simpa using hc, fun k hk => ?_⟩
    rw [Std.ExtTreeMap.getElem?_insert, if_neg (by simpa using Ne.symm hk)]
  have hdrop : Nets old next none →
      Nets old next (s.erase change.document.key)[change.document.key]? ∧
        ∀ k, k ≠ change.document.key → (s.erase change.document.key)[k]? = s[k]? := by
    intro hc
    refine ⟨by simpa using hc, fun k hk => ?_⟩
    rw [Std.ExtTreeMap.getElem?_erase, if_neg (by simpa using Ne.symm hk)]
  cases hold : s[change.document.key]? with
  | none =>
    rw [hold] at hs
    cases hs
    refine ⟨s.insert change.document.key change, by simp [addChange, hold], hput _ ?_⟩
    cases h with
    | added d => exact .added d
    | removed d => exact .removed d d rfl
    | modified o d hod => exact .modified o d hod
    | metadata o d hod hdata => exact .metadata o d hod hdata
  | some c =>
    rw [hold] at hs
    unfold addChange
    simp only [hold]
    -- one case for each change that is kept, and under it one for each change that can follow
    cases hs with
    | added d =>
      cases h with
      | removed => exact ⟨_, rfl, hdrop (.same _)⟩
      | modified _ d' => exact ⟨_, rfl, hput _ (.added d')⟩
      | metadata _ d' => exact ⟨_, rfl, hput _ (.added d')⟩
    | removed o d =>
      cases h with
      | added d' => exact ⟨_, rfl, hput _ (.modified o d' (hkey o rfl))⟩
    | modified o d hod =>
      cases h with
      | removed => exact ⟨_, rfl, hput _ (.removed o d hod)⟩
      | modified _ d' hdd => exact ⟨_, rfl, hput _ (.modified o d' (hod.trans hdd))⟩
      | metadata _ d' hdd => exact ⟨_, rfl, hput _ (.modified o d' (hod.trans hdd))⟩
    | metadata o d hod hdata =>
      cases h with
      | removed => exact ⟨_, rfl, hput _ (.removed o d hod)⟩
      | modified _ d' hdd => exact ⟨_, rfl, hput _ (.modified o d' (hod.trans hdd))⟩
      | metadata _ d' hdd hdata' =>
        exact ⟨_, rfl, hput _ (.metadata o d' (hod.trans hdd) (hdata.trans hdata'))⟩

end DocumentViewChangeSet

def Edited (docs : DocumentKey → Option (Document V)) (change : DocumentViewChange V)
    (docs' : DocumentKey → Option (Document V)) : Prop :=
  Says (docs change.document.key) (docs' change.document.key) change ∧
    ∀ k, k ≠ change.document.key → docs' k = docs k

/-- A change set takes any changes that follow each other, and nets each document from where it was
to where it got. -/
theorem changeSet_nets {old new : DocumentKey → Option (Document V)}
    {changes : List (DocumentViewChange V)} (hold : ∀ k d, old k = some d → d.key = k)
    (h : Runs.Run Edited old changes new) :
    ∃ s, changes.foldlM DocumentViewChangeSet.addChange ∅ = some s ∧
      ∀ k, Nets (old k) (new k) s[k]? := by
  induction h with
  | start =>
    refine ⟨∅, rfl, fun k => ?_⟩
    rw [Std.ExtTreeMap.getElem?_empty]
    exact .same _
  | @step changes cur new change _ hedit ih =>
    obtain ⟨s, hs, hnets⟩ := ih
    obtain ⟨hsaid, hothers⟩ := hedit
    obtain ⟨s', hadd, hown, hkept⟩ :=
      DocumentViewChangeSet.addChange_says (hnets _) (hold change.document.key) hsaid
    refine ⟨s', by simp [List.foldlM_append, hs, hadd], fun k => ?_⟩
    by_cases hk : k = change.document.key
    · rw [hk]
      exact hown
    · rw [hothers k hk, hkept k hk]
      exact hnets k

theorem rewritten_nets : ∃ s : DocumentViewChangeSet ℕ,
    [⟨⟨⟨["properties", "Q"], rfl⟩, 0, 0, .localMutations⟩, .added⟩,
      ⟨⟨⟨["properties", "Q"], rfl⟩, 1, 0, .localMutations⟩, .modified⟩].foldlM
        DocumentViewChangeSet.addChange ∅ = some s ∧
      Nets none (some ⟨⟨["properties", "Q"], rfl⟩, 1, 0, .localMutations⟩)
        s[(⟨["properties", "Q"], rfl⟩ : DocumentKey)]? := by
  let key : DocumentKey := ⟨["properties", "Q"], rfl⟩
  let docs : Option (Document ℕ) → DocumentKey → Option (Document ℕ) :=
    fun o k => if k = key then o else none
  have hadded : Edited (docs none) ⟨⟨key, 0, 0, .localMutations⟩, .added⟩
      (docs (some ⟨key, 0, 0, .localMutations⟩)) :=
    ⟨.added _, fun k hk => by simp [docs, hk]⟩
  have hmodified : Edited (docs (some ⟨key, 0, 0, .localMutations⟩))
      ⟨⟨key, 1, 0, .localMutations⟩, .modified⟩ (docs (some ⟨key, 1, 0, .localMutations⟩)) :=
    ⟨.modified _ _ rfl, fun k hk => by simp [docs, hk]⟩
  obtain ⟨s, hs, hnets⟩ := changeSet_nets (by simp [docs])
    (.step (.step .start hadded) hmodified)
  exact ⟨s, hs, hnets key⟩

end Firestore
