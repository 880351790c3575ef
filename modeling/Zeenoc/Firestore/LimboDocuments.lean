import Zeenoc.Firestore.View

/-! Documents in limbo: shown from the cache, while the server does not list them for the query. -/

namespace Firestore
variable {V : Type} {q : Query V}

/-- What a limbo change does to the documents in limbo; `none` when it does not apply. -/
def LimboDocumentChange.replay (limbo : DocumentKeySet) :
    LimboDocumentChange → Option DocumentKeySet
  | .added key => if key ∈ limbo then none else some (limbo.insert key)
  | .removed key => if key ∈ limbo then some (limbo.erase key) else none

variable {limbo : DocumentKeySet} {keys : List DocumentKey}

theorem replay_removed (limbo : DocumentKeySet) (hkeys : keys.Nodup) (hin : ∀ k ∈ keys, k ∈ limbo) :
    ∃ limbo', (keys.map LimboDocumentChange.removed).foldlM LimboDocumentChange.replay limbo =
      some limbo' ∧ ∀ k, k ∈ limbo' ↔ k ∈ limbo ∧ k ∉ keys := by
  induction keys generalizing limbo with
  | nil => exact ⟨limbo, rfl, by simp⟩
  | cons key keys ih =>
    rw [List.nodup_cons] at hkeys
    have hrest : ∀ k ∈ keys, k ∈ limbo.erase key := by
      intro k hk
      have hne : k ≠ key := fun he => hkeys.1 (he ▸ hk)
      rw [Std.ExtTreeSet.mem_erase]
      exact ⟨by simpa using hne.symm, hin k (List.mem_cons_of_mem _ hk)⟩
    obtain ⟨limbo', hreplay, hmem⟩ := ih _ hkeys.2 hrest
    refine ⟨limbo', ?_, fun k => ?_⟩
    · rw [List.map_cons, List.foldlM_cons, LimboDocumentChange.replay,
        if_pos (hin key List.mem_cons_self)]
      exact hreplay
    · rw [hmem, Std.ExtTreeSet.mem_erase, List.mem_cons, not_or]
      simp only [ne_eq, Std.LawfulEqCmp.compare_eq_iff_eq]
      constructor
      · exact fun ⟨⟨hne, hk⟩, hrest⟩ => ⟨hk, Ne.symm hne, hrest⟩
      · exact fun ⟨hk, hne, hrest⟩ => ⟨⟨Ne.symm hne, hk⟩, hrest⟩

theorem replay_added (limbo : DocumentKeySet) (hkeys : keys.Nodup) (hout : ∀ k ∈ keys, k ∉ limbo) :
    ∃ limbo', (keys.map LimboDocumentChange.added).foldlM LimboDocumentChange.replay limbo =
      some limbo' ∧ ∀ k, k ∈ limbo' ↔ k ∈ limbo ∨ k ∈ keys := by
  induction keys generalizing limbo with
  | nil => exact ⟨limbo, rfl, by simp⟩
  | cons key keys ih =>
    rw [List.nodup_cons] at hkeys
    have hrest : ∀ k ∈ keys, k ∉ limbo.insert key := by
      intro k hk
      have hne : k ≠ key := fun he => hkeys.1 (he ▸ hk)
      rw [Std.ExtTreeSet.mem_insert, not_or]
      exact ⟨by simpa using hne.symm, hout k (List.mem_cons_of_mem _ hk)⟩
    obtain ⟨limbo', hreplay, hmem⟩ := ih _ hkeys.2 hrest
    refine ⟨limbo', ?_, fun k => ?_⟩
    · rw [List.map_cons, List.foldlM_cons, LimboDocumentChange.replay,
        if_neg (hout key List.mem_cons_self)]
      exact hreplay
    · rw [hmem, Std.ExtTreeSet.mem_insert, List.mem_cons]
      simp only [Std.LawfulEqCmp.compare_eq_iff_eq]
      constructor
      · rintro ((rfl | hk) | hk)
        · exact .inr (.inl rfl)
        · exact .inl hk
        · exact .inr (.inr hk)
      · rintro (hk | rfl | hk)
        · exact .inl (.inr hk)
        · exact .inl (.inl rfl)
        · exact .inr hk

theorem replay_difference (old new : DocumentKeySet) :
    ((old.toList.filter fun key => !new.contains key).map LimboDocumentChange.removed ++
      (new.toList.filter fun key => !old.contains key).map LimboDocumentChange.added).foldlM
        LimboDocumentChange.replay old = some new := by
  have hnodup : ∀ s : DocumentKeySet, s.toList.Nodup := fun s =>
    (Std.ExtTreeSet.distinct_toList (t := s)).imp fun {a b} hne heq => hne (by simp [heq])
  have hmem : ∀ (s t : DocumentKeySet) k,
      k ∈ (s.toList.filter fun key => !t.contains key) ↔ k ∈ s ∧ k ∉ t := by
    intro s t k
    rw [List.mem_filter, Std.ExtTreeSet.mem_toList]
    apply and_congr_right'
    rw [Bool.not_eq_true', Std.ExtTreeSet.mem_iff_contains, Bool.not_eq_true]
  obtain ⟨kept, hremoved, hkept⟩ := replay_removed old
    ((hnodup old).filter fun key => !new.contains key) fun k hk => ((hmem old new k).mp hk).1
  obtain ⟨all, hadded, hall⟩ := replay_added kept
    ((hnodup new).filter fun key => !old.contains key)
    fun k hk hin => ((hmem new old k).mp hk).2 ((hkept k).mp hin).1
  rw [List.foldlM_append, hremoved, Option.bind_eq_bind, Option.bind_some, hadded]
  congr 1
  apply Std.ExtTreeSet.ext_mem
  intro k
  rw [hall, hkept, hmem, hmem]
  by_cases hold : k ∈ old <;> by_cases hnew : k ∈ new <;> simp [hold, hnew]

namespace View
variable (v : View q)

theorem mem_foldl_limbo (p : DocumentKey → Bool) (l : List (Document V)) (limbo : DocumentKeySet)
    (k : DocumentKey) :
    k ∈ l.foldl (fun limbo d => if p d.key then limbo.insert d.key else limbo) limbo ↔
      k ∈ limbo ∨ p k ∧ ∃ d ∈ l, d.key = k := by
  induction l generalizing limbo with
  | nil => simp
  | cons d l ih =>
    rw [List.foldl_cons, ih]
    by_cases hp : p d.key
    · rw [if_pos hp, Std.ExtTreeSet.mem_insert, Std.LawfulEqCmp.compare_eq_iff_eq]
      constructor
      · rintro ((rfl | hk) | ⟨hpk, d', hd', he⟩)
        · exact .inr ⟨hp, d, List.mem_cons_self, rfl⟩
        · exact .inl hk
        · exact .inr ⟨hpk, d', List.mem_cons_of_mem _ hd', he⟩
      · rintro (hk | ⟨hpk, d', hd', rfl⟩)
        · exact .inl (.inr hk)
        · rcases List.mem_cons.mp hd' with rfl | hd'
          · exact .inl (.inl rfl)
          · exact .inr ⟨hpk, d', hd', rfl⟩
    · rw [if_neg hp]
      refine or_congr_right (and_congr_right fun hpk => ?_)
      constructor
      · exact fun ⟨d', hd', he⟩ => ⟨d', List.mem_cons_of_mem _ hd', he⟩
      · rintro ⟨d', hd', rfl⟩
        rcases List.mem_cons.mp hd' with rfl | hd'
        · exact absurd hpk hp
        · exact ⟨d', hd', rfl⟩

theorem mem_updateLimboDocuments (hcurrent : v.current) (k : DocumentKey) :
    k ∈ v.updateLimboDocuments.1.limboDocuments ↔ v.shouldBeInLimbo k := by
  simp only [updateLimboDocuments, hcurrent, if_true]
  rw [mem_foldl_limbo]
  constructor
  · rintro (hk | ⟨hk, -⟩)
    · simp at hk
    · exact hk
  · intro hk
    refine .inr ⟨hk, ?_⟩
    obtain ⟨d, hd, -⟩ := (Option.any_eq_true _ _).mp (Bool.and_eq_true_iff.mp hk).2
    exact ⟨d, DocumentSet.mem_of_getDocument hd, v.documentSet.getDocument_key hd⟩

theorem replay_updateLimboDocuments :
    v.updateLimboDocuments.2.foldlM LimboDocumentChange.replay v.limboDocuments =
      some v.updateLimboDocuments.1.limboDocuments := by
  unfold updateLimboDocuments
  split_ifs
  · exact replay_difference _ _
  · rfl

theorem updateLimboDocuments_eq : v.updateLimboDocuments.1 =
    { v with limboDocuments := v.updateLimboDocuments.1.limboDocuments } := by
  unfold updateLimboDocuments
  split_ifs <;> rfl

end View
end Firestore
