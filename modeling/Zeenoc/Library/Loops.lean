import Mathlib.Data.List.Basic
import Std.Data.ExtTreeMap
import Std.Data.ExtTreeSet

/-! Loops over lists and maps: steps that may fail, steps that collect into a set or a map, and
steps that each touch one place of a state. -/

namespace Loops
variable {α β S K X : Type}

theorem foldlM_total {f : β → α → Option β} (g : β → α → β) (I : β → Prop) {l : List α} {b : β}
    (hb : I b) (h : ∀ b a, a ∈ l → I b → f b a = some (g b a) ∧ I (g b a)) :
    l.foldlM f b = some (l.foldl g b) ∧ I (l.foldl g b) := by
  induction l generalizing b with
  | nil => exact ⟨rfl, hb⟩
  | cons a l ih =>
    obtain ⟨hstep, hI⟩ := h b a List.mem_cons_self hb
    rw [List.foldlM_cons, hstep, List.foldl_cons]
    exact ih hI fun b a ha => h b a (List.mem_cons_of_mem _ ha)

theorem mapM_of_map_eq {f : α → Option β} {l : List α} {l' : List β} (h : l.map f = l'.map some) :
    l.mapM f = some l' := by
  induction l generalizing l' with
  | nil =>
    cases l' with
    | nil => rfl
    | cons b l' => cases h
  | cons a l ih =>
    cases l' with
    | nil => cases h
    | cons b l' =>
      obtain ⟨ha, hl⟩ := List.cons.inj h
      rw [List.mapM_cons, ha, ih hl]
      rfl

section Collect
variable [Ord K] [Std.TransOrd K] [Std.LawfulEqOrd K] {f : α → K}

theorem mem_foldl_insert {l : List α} {s : Std.ExtTreeSet K} {k : K} :
    k ∈ l.foldl (fun s a => s.insert (f a)) s ↔ k ∈ s ∨ ∃ a ∈ l, f a = k := by
  induction l generalizing s with
  | nil => simp
  | cons a l ih =>
    rw [List.foldl_cons, ih, Std.ExtTreeSet.mem_insert, Std.LawfulEqCmp.compare_eq_iff_eq,
      List.exists_mem_cons_iff]
    exact or_right_comm.trans or_comm

theorem mem_foldl_erase {l : List α} {s : Std.ExtTreeSet K} {k : K} :
    k ∈ l.foldl (fun s a => s.erase (f a)) s ↔ k ∈ s ∧ ∀ a ∈ l, f a ≠ k := by
  induction l generalizing s with
  | nil => simp
  | cons a l ih =>
    rw [List.foldl_cons, ih, Std.ExtTreeSet.mem_erase, ne_eq, Std.LawfulEqCmp.compare_eq_iff_eq,
      List.forall_mem_cons]
    exact (and_congr_left' and_comm).trans and_assoc

end Collect

section Places
variable [DecidableEq K] (step : S → α → S) (look : S → K → X) (key : α → K) (upd : α → X → X)

theorem look_foldl
    (h : ∀ s a k, look (step s a) k = if key a = k then upd a (look s k) else look s k)
    (l : List α) (s : S) (k : K) :
    look (l.foldl step s) k = l.foldl (fun x a => if key a = k then upd a x else x) (look s k) := by
  induction l generalizing s with
  | nil => rfl
  | cons a l ih => rw [List.foldl_cons, List.foldl_cons, ih, h]

theorem foldl_filter_key (l : List α) (x : X) (k : K) :
    l.foldl (fun x a => if key a = k then upd a x else x) x =
      (l.filter fun a => key a = k).foldl (fun x a => upd a x) x := by
  induction l generalizing x with
  | nil => rfl
  | cons a l ih =>
    by_cases ha : key a = k
    · rw [List.foldl_cons, if_pos ha, List.filter_cons_of_pos (by simpa using ha), List.foldl_cons,
        ih]
    · rw [List.foldl_cons, if_neg ha, List.filter_cons_of_neg (by simpa using ha), ih]

theorem foldlM_places {f : S → α → Option S} (I : S → Prop) {l : List α} {s : S} (hs : I s)
    (h : ∀ s a, a ∈ l → I s → ∃ s', f s a = some s' ∧ I s' ∧
      ∀ k, look s' k = if key a = k then upd a (look s k) else look s k) :
    ∃ s', l.foldlM f s = some s' ∧ I s' ∧
      ∀ k, look s' k = (l.filter fun a => key a = k).foldl (fun x a => upd a x) (look s k) := by
  induction l generalizing s with
  | nil => exact ⟨s, rfl, hs, fun _ => rfl⟩
  | cons a l ih =>
    obtain ⟨s₁, hstep, hs₁, hlook₁⟩ := h s a List.mem_cons_self hs
    obtain ⟨s', hloop, hs', hlook⟩ := ih hs₁ fun s a ha => h s a (List.mem_cons_of_mem _ ha)
    refine ⟨s', ?_, hs', fun k => ?_⟩
    · rw [List.foldlM_cons, hstep]
      exact hloop
    · rw [hlook, hlook₁, List.filter_cons]
      by_cases hk : key a = k
      · simp [hk]
      · simp [hk]

end Places

section Maps
variable [Ord K] [Std.TransOrd K] [Std.LawfulEqOrd K] [DecidableEq K]

theorem filter_key_toList (m : Std.ExtTreeMap K X) (k : K) :
    (m.toList.filter fun e => e.1 = k) = (m[k]?.map fun x => (k, x)).toList := by
  have hnodup : (m.toList.filter fun e => e.1 = k).Pairwise fun a b => ¬compare a.1 b.1 = .eq :=
    Std.ExtTreeMap.distinct_keys_toList.sublist List.filter_sublist
  have hmem : ∀ e ∈ m.toList.filter fun e => e.1 = k, m[k]? = some e.2 ∧ e.1 = k := by
    intro e he
    obtain ⟨hin, hk⟩ := List.mem_filter.mp he
    obtain rfl : e.1 = k := by simpa using hk
    exact ⟨Std.ExtTreeMap.mem_toList_iff_getElem?_eq_some.mp hin, rfl⟩
  cases hlist : m.toList.filter fun e => e.1 = k with
  | nil =>
    cases hk : m[k]? with
    | none => rfl
    | some x =>
      have hin : (k, x) ∈ m.toList.filter fun e => e.1 = k := List.mem_filter.mpr
        ⟨Std.ExtTreeMap.mem_toList_iff_getElem?_eq_some.mpr hk, by simp⟩
      simp [hlist] at hin
  | cons e rest =>
    rw [hlist] at hnodup hmem
    obtain ⟨hget, hkey⟩ := hmem e List.mem_cons_self
    have hrest : rest = [] := by
      cases rest with
      | nil => rfl
      | cons e' rest =>
        have hne := (List.pairwise_cons.mp hnodup).1 e' List.mem_cons_self
        rw [hkey, (hmem e' (List.mem_cons_of_mem _ List.mem_cons_self)).2,
          Std.ReflOrd.compare_self] at hne
        exact absurd rfl hne
    rw [hrest, hget]
    simp [← hkey]

theorem filter_eq_toList (m : Std.ExtTreeSet K) (k : K) :
    (m.toList.filter fun key => key = k) = if k ∈ m then [k] else [] := by
  have hnodup : (m.toList.filter fun key => key = k).Nodup :=
    (Std.ExtTreeSet.distinct_toList.imp fun hne he =>
      hne (by rw [he, Std.ReflOrd.compare_self])).sublist
      List.filter_sublist
  have hmem : ∀ key, key ∈ m.toList.filter (fun key => key = k) ↔ key ∈ m ∧ key = k := by
    intro key
    rw [List.mem_filter, Std.ExtTreeSet.mem_toList, decide_eq_true_iff]
  split_ifs with hk
  · apply List.Perm.eq_singleton
    rw [List.perm_ext_iff_of_nodup hnodup (by simp)]
    intro key
    rw [hmem, List.mem_singleton]
    exact ⟨And.right, fun he => ⟨he ▸ hk, he⟩⟩
  · rw [List.eq_nil_iff_forall_not_mem]
    intro key hkey
    obtain ⟨hm, rfl⟩ := (hmem key).mp hkey
    exact hk hm

theorem look_foldl_toList {Y : Type} (step : S → K × X → S) (look : S → K → Y)
    (upd : K × X → Y → Y)
    (h : ∀ s e k, look (step s e) k = if e.1 = k then upd e (look s k) else look s k)
    (m : Std.ExtTreeMap K X) (s : S) (k : K) :
    look (m.toList.foldl step s) k = match m[k]? with
      | some x => upd (k, x) (look s k)
      | none => look s k := by
  rw [look_foldl step look Prod.fst upd h, foldl_filter_key, filter_key_toList]
  cases m[k]? <;> rfl

theorem getElem?_collect {Y : Type} (f : K → X → Option Y) (m : Std.ExtTreeMap K X) (k : K) :
    (m.toList.foldl (fun results e => match f e.1 e.2 with
      | some y => results.insert e.1 y
      | none => results) (∅ : Std.ExtTreeMap K Y))[k]? = m[k]?.bind (f k) := by
  have hloop := look_foldl_toList
    (fun (results : Std.ExtTreeMap K Y) (e : K × X) => match f e.1 e.2 with
      | some y => results.insert e.1 y
      | none => results)
    (fun r k => r[k]?) (fun e y => (f e.1 e.2).or y) (fun results e k => ?_) m ∅ k
  · rw [hloop, Std.ExtTreeMap.getElem?_empty]
    cases m[k]? with
    | none => rfl
    | some x => exact Option.or_none
  · by_cases hk : e.1 = k
    · subst hk
      cases f e.1 e.2 <;> simp
    · rw [if_neg hk]
      cases f e.1 e.2 with
      | none => rfl
      | some y =>
        have hne : compare e.1 k ≠ .eq := fun he => hk (Std.LawfulEqCmp.eq_of_compare he)
        simp [Std.ExtTreeMap.getElem?_insert, hne]

theorem getElem?_fill {Y : Type} (f : K → Y) (keys : List K) (m : Std.ExtTreeMap K Y) (k : K) :
    (keys.foldl (fun results key => results.insert key (f key)) m)[k]? =
      if k ∈ keys then some (f k) else m[k]? := by
  induction keys generalizing m with
  | nil => simp
  | cons key keys ih =>
    rw [List.foldl_cons, ih, Std.ExtTreeMap.getElem?_insert]
    by_cases hkey : key = k
    · simp [hkey]
    · simp [hkey, Ne.symm hkey]

end Maps
end Loops
