import Zeenoc.Firestore.DocumentChange

/-! Successive states of one collection, and a listener that works through their differences. -/

namespace Firestore

/-- The collection starts empty; each later state is delivered as its difference to the last. -/
inductive History : Collection → Type
  | start : History fun _ => none
  | batch {old new : Collection} (h : History old) (D : Difference old new) : History new

namespace History
variable {S : Type} (f : List DocumentChange → S → Option S) (s₀ : S)

def All (P : ∀ {old new : Collection}, Difference old new → Prop) : ∀ {c}, History c → Prop
  | _, .start => True
  | _, .batch h D => All P h ∧ P D

def run : ∀ {c}, History c → Option S
  | _, .start => some s₀
  | _, .batch h D => (run h).bind (f D.changes)

def Always (I : Collection → S → Prop) : ∀ {c}, History c → Prop
  | _, .start => True
  | new, .batch h D => Always I h ∧ ∃ s, run f s₀ (h.batch D) = some s ∧ I new s

variable {f s₀} {I : Collection → S → Prop}

theorem Always.run_eq (h0 : I (fun _ => none) s₀) {c : Collection} {h : History c}
    (hA : Always f s₀ I h) : ∃ s, run f s₀ h = some s ∧ I c s := by
  cases h with
  | start => exact ⟨s₀, rfl, h0⟩
  | batch h D => exact hA.2

/-- A listener keeps `I` over a history exactly when every batch is one with which it does. -/
theorem always_iff {Good Ok : ∀ {old new : Collection}, Difference old new → Prop}
    (h0 : I (fun _ => none) s₀)
    (hstep : ∀ {old new} (D : Difference old new) (s : S), Good D → I old s →
      ((∃ s', f D.changes s = some s' ∧ I new s') ↔ Ok D))
    {c : Collection} (h : History c) (hg : All Good h) : Always f s₀ I h ↔ All Ok h := by
  induction h with
  | start => exact Iff.rfl
  | batch h D ih =>
    have hbefore := ih hg.1
    constructor
    · rintro ⟨hA, s', hs', hI⟩
      obtain ⟨s, hs, hIs⟩ := hA.run_eq h0
      have hrun : f D.changes s = some s' := by simpa [run, hs] using hs'
      exact ⟨hbefore.mp hA, (hstep D s hg.2 hIs).mp ⟨s', hrun, hI⟩⟩
    · rintro ⟨hOk, hD⟩
      have hA := hbefore.mpr hOk
      obtain ⟨s, hs, hIs⟩ := hA.run_eq h0
      obtain ⟨s', hs', hI⟩ := (hstep D s hg.2 hIs).mpr hD
      exact ⟨hA, s', by simpa [run, hs] using hs', hI⟩

end History

section Listed

/-- The documents of a list; of two under one id the first counts. -/
def Collection.ofList (l : List (DocumentId × Fields)) : Collection :=
  fun id => (l.find? fun x => x.1 = id).map Prod.snd

theorem ofList_eq_some {l : List (DocumentId × Fields)} (hl : (l.map Prod.fst).Nodup)
    (x : DocumentId × Fields) : Collection.ofList l x.1 = some x.2 ↔ x ∈ l := by
  induction l with
  | nil => simp [Collection.ofList]
  | cons y l ih =>
    rw [List.map_cons, List.nodup_cons] at hl
    have hother : ∀ z ∈ l, z.1 ≠ y.1 := fun z hz he => hl.1 (he ▸ List.mem_map_of_mem hz)
    by_cases hxy : y.1 = x.1
    · have hhead : Collection.ofList (y :: l) x.1 = some y.2 := by
        simp [Collection.ofList, hxy]
      rw [hhead, Option.some.injEq, List.mem_cons]
      constructor
      · exact fun h => .inl (Prod.ext hxy.symm h.symm)
      · rintro (rfl | hx)
        · rfl
        · exact (hother x hx hxy.symm).elim
    · have htail : Collection.ofList (y :: l) x.1 = Collection.ofList l x.1 := by
        simp [Collection.ofList, hxy]
      rw [htail, ih hl.2, List.mem_cons]
      exact ⟨.inr, fun h => h.resolve_left fun he => hxy (he ▸ rfl)⟩

def Difference.fill (l : List (DocumentId × Fields)) (hl : (l.map Prod.fst).Nodup) :
    Difference (fun _ => none) (Collection.ofList l) where
  removed := []
  added := l
  modified := []
  mem_removed x := by simp
  mem_added x := by simp [ofList_eq_some hl]
  mem_modified x := by simp
  removed_nodup := List.nodup_nil
  added_nodup := hl
  modified_nodup := List.nodup_nil

def Difference.clear (l : List (DocumentId × Fields)) (hl : (l.map Prod.fst).Nodup) :
    Difference (Collection.ofList l) (fun _ => none) where
  removed := l
  added := []
  modified := []
  mem_removed x := by simp [ofList_eq_some hl]
  mem_added x := by simp
  mem_modified x := by simp
  removed_nodup := hl
  added_nodup := List.nodup_nil
  modified_nodup := List.nodup_nil

def History.cleared (l : List (DocumentId × Fields)) (hl : (l.map Prod.fst).Nodup) :
    History fun _ => none :=
  (History.start.batch (Difference.fill l hl)).batch (Difference.clear l hl)

section Single
variable {id : DocumentId} {l : List (DocumentId × Fields)}

theorem ofList_cons (x : DocumentId × Fields) (q : DocumentId) :
    Collection.ofList (x :: l) q = if x.1 = q then some x.2 else Collection.ofList l q := by
  by_cases h : x.1 = q <;> simp [Collection.ofList, h]

theorem ofList_eq_none (hid : id ∉ l.map Prod.fst) : Collection.ofList l id = none := by
  unfold Collection.ofList
  rw [Option.map_eq_none_iff, List.find?_eq_none]
  intro x hx he
  exact hid (List.mem_map.mpr ⟨x, hx, by simpa using he⟩)

def Difference.drop (x : DocumentId × Fields) (hx : x.1 ∉ l.map Prod.fst) :
    Difference (Collection.ofList (x :: l)) (Collection.ofList l) where
  removed := [x]
  added := []
  modified := []
  mem_removed y := by
    rw [ofList_cons, List.mem_singleton, Prod.ext_iff]
    by_cases hy : x.1 = y.1
    · simp [← hy, ofList_eq_none hx, eq_comm]
    · cases h : Collection.ofList l y.1 <;> simp [hy, Ne.symm hy]
  mem_added y := by
    rw [ofList_cons]
    by_cases hy : x.1 = y.1
    · simp [hy]
    · cases h : Collection.ofList l y.1 <;> simp [hy]
  mem_modified y := by
    rw [ofList_cons]
    by_cases hy : x.1 = y.1
    · simp [← hy, ofList_eq_none hx]
    · cases h : Collection.ofList l y.1 <;> simp [hy]
  removed_nodup := List.nodup_singleton _
  added_nodup := List.nodup_nil
  modified_nodup := List.nodup_nil

def History.dropped (x : DocumentId × Fields) (l : List (DocumentId × Fields))
    (hl : ((x :: l).map Prod.fst).Nodup) : History (Collection.ofList l) :=
  (History.start.batch (Difference.fill (x :: l) hl)).batch
    (Difference.drop x (List.nodup_cons.mp hl).1)

def Difference.rewrite {d d' : Fields} (hd : d ≠ d') :
    Difference (Collection.ofList ((id, d) :: l)) (Collection.ofList ((id, d') :: l)) where
  removed := []
  added := []
  modified := [(id, d')]
  mem_removed x := by
    rw [ofList_cons, ofList_cons]
    by_cases hx : id = x.1
    · simp [hx]
    · cases h : Collection.ofList l x.1 <;> simp [hx]
  mem_added x := by
    rw [ofList_cons, ofList_cons]
    by_cases hx : id = x.1
    · simp [hx]
    · cases h : Collection.ofList l x.1 <;> simp [hx]
  mem_modified x := by
    rw [ofList_cons, ofList_cons, List.mem_singleton, Prod.ext_iff]
    by_cases hx : id = x.1
    · simp only [hx, if_true, Option.some.injEq, true_and]
      constructor
      · rintro rfl
        exact ⟨d, rfl, rfl, hd⟩
      · rintro ⟨_, -, h, -⟩
        exact h.symm
    · cases h : Collection.ofList l x.1 <;> simp [hx, Ne.symm hx]
  removed_nodup := List.nodup_nil
  added_nodup := List.nodup_nil
  modified_nodup := List.nodup_singleton _

def Difference.swap {id' : DocumentId} {d d' : Fields} (hne : id ≠ id')
    (hid : id ∉ l.map Prod.fst) (hid' : id' ∉ l.map Prod.fst) :
    Difference (Collection.ofList ((id, d) :: l)) (Collection.ofList ((id', d') :: l)) where
  removed := [(id, d)]
  added := [(id', d')]
  modified := []
  mem_removed x := by
    rw [ofList_cons, ofList_cons, List.mem_singleton, Prod.ext_iff]
    by_cases hx : id = x.1
    · simp [← hx, hne.symm, ofList_eq_none hid, eq_comm]
    · by_cases hx' : id' = x.1
      · simp [hx', Ne.symm hx]
      · cases h : Collection.ofList l x.1 <;> simp [hx, hx', Ne.symm hx]
  mem_added x := by
    rw [ofList_cons, ofList_cons, List.mem_singleton, Prod.ext_iff]
    by_cases hx' : id' = x.1
    · simp [← hx', hne, ofList_eq_none hid', eq_comm]
    · by_cases hx : id = x.1
      · simp [hx, Ne.symm hx']
      · cases h : Collection.ofList l x.1 <;> simp [hx, hx', Ne.symm hx']
  mem_modified x := by
    rw [ofList_cons, ofList_cons]
    by_cases hx : id = x.1
    · simp [← hx, hne.symm, ofList_eq_none hid]
    · by_cases hx' : id' = x.1
      · simp [← hx', hne, ofList_eq_none hid']
      · cases h : Collection.ofList l x.1 <;> simp [hx, hx']
  removed_nodup := List.nodup_singleton _
  added_nodup := List.nodup_singleton _
  modified_nodup := List.nodup_nil

def History.rewritten (id : DocumentId) {d d' : Fields} (hd : d ≠ d') :
    History (Collection.ofList [(id, d')]) :=
  (History.start.batch (Difference.fill [(id, d)] (List.nodup_singleton _))).batch
    (Difference.rewrite hd)

end Single

end Listed
end Firestore
