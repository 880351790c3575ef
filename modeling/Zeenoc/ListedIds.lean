import Zeenoc.Listener
import Zeenoc.LandlordVC

/-! The callbacks of the three listeners as far as the ids of their entries go: each change moves
the ids that are listed, and the first removal of one among `ends` ends the callback. -/

namespace Zeenoc
open Firestore

/-- `listed` are the ids of all entries, `ends` those whose removal leaves the callback. Of the
modified documents that are not listed only the `Exempt` ones are known to change no ids. -/
structure IdLoop {S : Type} (call : List DocumentChange → S → Option (S × Bool))
    (listed ends : S → List String) (Exempt : Fields → Prop) : Prop where
  nil : ∀ s, call [] s = some (s, true)
  added : ∀ {x cs s y}, call (change .added x :: cs) s = some y → ∃ s₁, call cs s₁ = some y ∧
    listed s₁ = listed s ++ [x.1.val] ∧ (ends s₁ = ends s ∨ ends s₁ = ends s ++ [x.1.val])
  modified : ∀ {x cs s y}, call (change .modified x :: cs) s = some y → ∃ s₁, call cs s₁ = some y ∧
    (Exempt x.2 → listed s₁ = listed s ∧ ends s₁ = ends s) ∧
    (x.1.val ∈ listed s → listed s₁ = listed s ∧
      (ends s₁ = ends s ∨ x.1.val ∉ ends s ∧ ends s₁ = ends s ++ [x.1.val]))
  cut : ∀ x cs s, x.1.val ∈ ends s → ∃ s₁, call (change .removed x :: cs) s = some (s₁, false) ∧
    listed s₁ = (listed s).erase x.1.val ∧ ends s₁ = (ends s).erase x.1.val
  pass : ∀ x cs s, x.1.val ∉ ends s → ∃ s₁, call (change .removed x :: cs) s = call cs s₁ ∧
    listed s₁ = (listed s).erase x.1.val ∧ ends s₁ = ends s

section Instances
variable {R : Type} {id : R → String} {ofDocument : DocumentId → Fields → Option R}

theorem listen_idLoop (hid : ∀ q d r, ofDocument q d = some r → id r = q.val) :
    IdLoop (listen id ofDocument) (fun l => l.map id) (fun l => l.map id) fun _ => True where
  nil _ := rfl
  added {x cs l y} h := by
    obtain ⟨r, hr, hrest⟩ := Option.bind_eq_some_iff.mp h
    have hadded : (l ++ [r]).map id = l.map id ++ [x.1.val] := by
      rw [List.map_append, List.map_singleton, hid x.1 x.2 r hr]
    exact ⟨l ++ [r], hrest, hadded, .inr hadded⟩
  modified {_ _ l _} h := ⟨l, h, fun _ => ⟨rfl, rfl⟩, fun _ => ⟨rfl, .inl rfl⟩⟩
  cut x _ _ hx :=
    ⟨_, if_pos (List.mem_map.mp hx), KeyedList.map_eraseP x.1.val, KeyedList.map_eraseP x.1.val⟩
  pass x _ l hx :=
    ⟨l, if_neg fun h => hx (List.mem_map.mpr h), (List.erase_of_not_mem hx).symm, rfl⟩

theorem NotificationsVC.firebaseCall_idLoop : IdLoop NotificationsVC.firebaseCall
    (fun l => l.map Request.id) (fun l => l.map Request.id) fun _ => True :=
  listen_idLoop fun _ _ _ hof => (Request.ofDocument_fields hof).1

theorem TenantVC.firebaseCall_idLoop : IdLoop TenantVC.firebaseCall
    (fun l => l.map Payment.id) (fun l => l.map Payment.id) fun _ => True :=
  listen_idLoop fun _ _ _ hof => Payment.ofDocument_id hof

namespace LandlordVC

theorem modified_ids {q : DocumentId} {d : Fields} {s s₁ : Lists} (h : modified q d s = some s₁) :
    (d.getString "tenantName" = some "N/A" → s₁ = s) ∧
    (q.val ∈ s.properties.map Property.id →
      s₁.properties.map Property.id = s.properties.map Property.id ∧
      (s₁.tenantProperties.map Property.id = s.tenantProperties.map Property.id ∨
        q.val ∉ s.tenantProperties.map Property.id ∧
          s₁.tenantProperties.map Property.id =
            s.tenantProperties.map Property.id ++ [q.val])) := by
  obtain ⟨tenantName, hname, h⟩ := Option.bind_eq_some_iff.mp h
  obtain ⟨tenantID, -, h⟩ := Option.bind_eq_some_iff.mp h
  obtain ⟨first, -, h⟩ := Option.bind_eq_some_iff.mp h
  split_ifs at h with hplaceholder hlisted
  · obtain rfl := Option.some.inj h
    exact ⟨fun _ => rfl, fun _ => ⟨rfl, .inl rfl⟩⟩
  · obtain rfl := Option.some.inj h
    have hne : d.getString "tenantName" ≠ some "N/A" := by simpa [hname] using hplaceholder
    exact ⟨fun he => (hne he).elim, fun _ => ⟨map_setTenant .., .inl (map_setTenant ..)⟩⟩
  · obtain rfl := Option.some.inj h
    have hne : d.getString "tenantName" ≠ some "N/A" := by simpa [hname] using hplaceholder
    refine ⟨fun he => (hne he).elim, fun hq => ⟨map_setTenant .., .inr ⟨?_, ?_⟩⟩⟩
    · simpa using hlisted
    · obtain ⟨p, hp, hpid⟩ := List.mem_map.mp hq
      have hcurr := foldl_curr_id (k := q.val)
        (s.properties.map (setTenant q tenantName tenantID)) first
        (.inr ⟨_, List.mem_map_of_mem hp, by rw [setTenant_id, hpid]⟩)
      simp only [List.map_append, List.map_singleton, map_setTenant, hcurr]

theorem firebaseCall_idLoop : IdLoop firebaseCall (fun s => s.properties.map Property.id)
    (fun s => s.tenantProperties.map Property.id)
    fun d => d.getString "tenantName" = some "N/A" where
  nil _ := rfl
  added {x cs s y} h := by
    obtain ⟨s₁, hs₁, hrest⟩ := Option.bind_eq_some_iff.mp h
    obtain ⟨p, hp, hs₁⟩ := Option.bind_eq_some_iff.mp hs₁
    obtain rfl := Option.some.inj hs₁
    have hpid : p.id = x.1.val := Property.ofDocument_id hp
    refine ⟨_, hrest, by simp [hpid], ?_⟩
    show List.map Property.id (ite _ _ _) = _ ∨ List.map Property.id (ite _ _ _) = _
    split_ifs
    · exact .inr (by simp [hpid])
    · exact .inl rfl
  modified {x cs s y} h := by
    obtain ⟨s₁, hs₁, hrest⟩ := Option.bind_eq_some_iff.mp h
    obtain ⟨hexempt, hids⟩ := modified_ids hs₁
    exact ⟨s₁, hrest, fun he => by rw [hexempt he]; exact ⟨rfl, rfl⟩, hids⟩
  cut x _ _ hx :=
    ⟨_, if_pos (List.mem_map.mp hx), KeyedList.map_eraseP x.1.val, KeyedList.map_eraseP x.1.val⟩
  pass x _ _ hx :=
    ⟨_, if_neg fun h => hx (List.mem_map.mpr h), KeyedList.map_eraseP x.1.val, rfl⟩

end LandlordVC
end Instances

section Batch
variable {S : Type} {call : List DocumentChange → S → Option (S × Bool)}
  {listed ends : S → List String} {Exempt : Fields → Prop} {s s' : S} {b : Bool}

def idsOf (xs : List (DocumentId × Fields)) : List String := xs.map fun x => x.1.val

theorem IdLoop.removals (h : IdLoop call listed ends Exempt) {xs : List (DocumentId × Fields)}
    {rest : List DocumentChange} (hrun : call (xs.map (change .removed) ++ rest) s = some (s', b)) :
    (∃ pre x post, xs = pre ++ x :: post ∧ (∀ y ∈ pre, y.1.val ∉ ends s) ∧ x.1.val ∈ ends s ∧
      b = false ∧ listed s' = (listed s).diff (idsOf (pre ++ [x])) ∧
      ends s' = (ends s).erase x.1.val) ∨
    (∀ x ∈ xs, x.1.val ∉ ends s) ∧ ∃ s₁, call rest s₁ = some (s', b) ∧
      listed s₁ = (listed s).diff (idsOf xs) ∧ ends s₁ = ends s := by
  -- over the removals, until one of an entry at which the callback returns
  induction xs generalizing s with
  | nil => exact .inr ⟨fun _ hx => absurd hx List.not_mem_nil, s, hrun, rfl, rfl⟩
  | cons x xs ih =>
    by_cases hx : x.1.val ∈ ends s
    · obtain ⟨s₁, hcut, hlisted, hends⟩ := h.cut x (xs.map (change .removed) ++ rest) s hx
      obtain ⟨rfl, rfl⟩ := Prod.mk.inj (Option.some.inj (hcut.symm.trans hrun))
      refine .inl ⟨[], x, xs, rfl, fun _ hy => absurd hy List.not_mem_nil, hx, rfl, ?_, hends⟩
      rw [hlisted]
      exact (List.diff_cons _ [] _).symm
    · obtain ⟨s₁, hpass, hlisted, hends⟩ := h.pass x (xs.map (change .removed) ++ rest) s hx
      have hdiff : ∀ ys, (listed s₁).diff (idsOf ys) = (listed s).diff (idsOf (x :: ys)) := by
        intro ys
        rw [hlisted]
        exact (List.diff_cons _ _ _).symm
      rcases ih (hpass.symm.trans hrun) with
        ⟨pre, y, post, rfl, hpre, hy, hb, hl, he⟩ | ⟨hxs, s₂, hrest, hl, he⟩
      · rw [hends] at hpre hy he
        refine .inl ⟨x :: pre, y, post, rfl, ?_, hy, hb, hl.trans (hdiff _), he⟩
        simpa [hx] using hpre
      · rw [hends] at hxs he
        refine .inr ⟨?_, s₂, hrest, hl.trans (hdiff xs), he⟩
        simpa [hx] using hxs

/-- What is listed: ids of `K`, each once, and those whose removal ends the callback among them. -/
structure Single (listed ends : List String) (K : Set String) : Prop where
  nodup : listed.Nodup
  ends_nodup : ends.Nodup
  ends_listed : ∀ k ∈ ends, k ∈ listed
  own : ∀ k ∈ listed, k ∈ K

variable {K K' : Set String}

theorem single_nil (K : Set String) : Single [] [] K :=
  ⟨List.nodup_nil, List.nodup_nil, fun _ h => h, fun _ h => absurd h List.not_mem_nil⟩

theorem Single.mono {l e : List String} (h : Single l e K) (hK : ∀ k ∈ l, k ∈ K → k ∈ K') :
    Single l e K' :=
  ⟨h.nodup, h.ends_nodup, h.ends_listed, fun k hk => hK k hk (h.own k hk)⟩

theorem Single.diff {l e : List String} (h : Single l e K) {xs : List (DocumentId × Fields)}
    (hxs : ∀ x ∈ xs, x.1.val ∉ e) : Single (l.diff (idsOf xs)) e K := by
  refine ⟨h.nodup.diff, h.ends_nodup, fun k hk => ?_,
    fun k hk => h.own k (List.diff_subset _ _ hk)⟩
  refine List.mem_diff_of_mem (h.ends_listed k hk) fun hmem => ?_
  obtain ⟨x, hx, rfl⟩ := List.mem_map.mp hmem
  exact hxs x hx hk

theorem Single.cut {l e : List String} (h : Single l e K) {pre : List (DocumentId × Fields)}
    {x : DocumentId × Fields} (hpre : ∀ y ∈ pre, y.1.val ∉ e) :
    Single (l.diff (idsOf (pre ++ [x]))) (e.erase x.1.val) K := by
  refine ⟨h.nodup.diff, h.ends_nodup.erase _, fun k hk => ?_,
    fun k hk => h.own k (List.diff_subset _ _ hk)⟩
  obtain ⟨hne, hke⟩ := h.ends_nodup.mem_erase_iff.mp hk
  refine List.mem_diff_of_mem (h.ends_listed k hke) fun hmem => ?_
  obtain ⟨y, hy, rfl⟩ := List.mem_map.mp hmem
  rcases List.mem_append.mp hy with hy | hy
  · exact hpre y hy hke
  · exact hne (by rw [List.mem_singleton.mp hy])

theorem Single.added {l e e' : List String} (h : Single l e K) {k : String} (hk : k ∉ l)
    (he : e' = e ∨ e' = e ++ [k]) : Single (l ++ [k]) e' (insert k K) := by
  refine ⟨?_, ?_, fun j hj => ?_, fun j hj => ?_⟩
  · exact List.Nodup.append h.nodup (List.nodup_singleton _) (by simpa using hk)
  · rcases he with rfl | rfl
    · exact h.ends_nodup
    · exact List.Nodup.append h.ends_nodup (List.nodup_singleton _)
        (by simpa using fun hke => hk (h.ends_listed k hke))
  · rcases he with rfl | rfl
    · exact List.mem_append_left _ (h.ends_listed j hj)
    · rcases List.mem_append.mp hj with hj | hj
      · exact List.mem_append_left _ (h.ends_listed j hj)
      · exact List.mem_append_right _ hj
  · rcases List.mem_append.mp hj with hj | hj
    · exact .inr (h.own j hj)
    · exact .inl (List.mem_singleton.mp hj)

theorem IdLoop.additions (h : IdLoop call listed ends Exempt) {xs : List (DocumentId × Fields)}
    {rest : List DocumentChange} (hrun : call (xs.map (change .added) ++ rest) s = some (s', b)) :
    ∃ s₁, call rest s₁ = some (s', b) ∧ listed s₁ = listed s ++ idsOf xs ∧
      (Single (listed s) (ends s) K → (∀ x ∈ xs, x.1.val ∉ listed s) → (idsOf xs).Nodup →
        Single (listed s₁) (ends s₁) (K ∪ {k | k ∈ idsOf xs})) := by
  induction xs generalizing s K with
  | nil => exact ⟨s, hrun, by simp [idsOf], fun hs _ _ => hs.mono fun _ _ hk => .inl hk⟩
  | cons x xs ih =>
    obtain ⟨s₁, hrest, hlisted, hends⟩ := h.added hrun
    obtain ⟨s₂, hrun₂, hlisted₂, hsingle⟩ := ih (K := insert x.1.val K) hrest
    refine ⟨s₂, hrun₂, ?_, fun hs hnew hdup => ?_⟩
    · rw [hlisted₂, hlisted, List.append_assoc]
      rfl
    obtain ⟨hx, hxs⟩ := List.nodup_cons.mp hdup
    have hs₁ : Single (listed s₁) (ends s₁) (insert x.1.val K) := by
      rw [hlisted]
      exact hs.added (hnew x List.mem_cons_self) hends
    have hnew₁ : ∀ y ∈ xs, y.1.val ∉ listed s₁ := by
      intro y hy hmem
      rw [hlisted] at hmem
      rcases List.mem_append.mp hmem with hmem | hmem
      · exact hnew y (List.mem_cons_of_mem _ hy) hmem
      · exact hx (List.mem_map.mpr ⟨y, hy, List.mem_singleton.mp hmem⟩)
    refine (hsingle hs₁ hnew₁ hxs).mono fun k _ hk => ?_
    rcases hk with (rfl | hk) | hk
    · exact .inr List.mem_cons_self
    · exact .inl hk
    · exact .inr (List.mem_cons_of_mem _ hk)

theorem IdLoop.modifications (h : IdLoop call listed ends Exempt)
    {xs : List (DocumentId × Fields)} (hrun : call (xs.map (change .modified)) s = some (s', b))
    (hs : Single (listed s) (ends s) K) (hxs : ∀ x ∈ xs, Exempt x.2 ∨ x.1.val ∈ listed s) :
    Single (listed s') (ends s') K := by
  induction xs generalizing s with
  | nil =>
    rw [List.map_nil, h.nil] at hrun
    obtain ⟨rfl, -⟩ := Prod.mk.inj (Option.some.inj hrun)
    exact hs
  | cons x xs ih =>
    obtain ⟨s₁, hrest, hexempt, hlisted⟩ := h.modified hrun
    have hs₁ : listed s₁ = listed s ∧ Single (listed s₁) (ends s₁) K := by
      rcases hxs x List.mem_cons_self with hx | hx
      · obtain ⟨hl, he⟩ := hexempt hx
        rw [hl, he]
        exact ⟨rfl, hs⟩
      · obtain ⟨hl, he | ⟨hnot, he⟩⟩ := hlisted hx
        · rw [hl, he]
          exact ⟨rfl, hs⟩
        · rw [hl, he]
          refine ⟨rfl, hs.nodup, ?_, fun k hk => ?_, hs.own⟩
          · exact List.Nodup.append hs.ends_nodup (List.nodup_singleton _) (by simpa using hnot)
          · rcases List.mem_append.mp hk with hk | hk
            · exact hs.ends_listed k hk
            · exact List.mem_singleton.mp hk ▸ hx
    apply ih hrest hs₁.2
    rw [hs₁.1]
    exact fun y hy => hxs y (List.mem_cons_of_mem _ hy)

theorem IdLoop.exempt (h : IdLoop call listed ends Exempt) {xs : List (DocumentId × Fields)}
    (hxs : ∀ x ∈ xs, Exempt x.2) (hrun : call (xs.map (change .modified)) s = some (s', b)) :
    ends s' = ends s := by
  induction xs generalizing s with
  | nil =>
    rw [List.map_nil, h.nil] at hrun
    rw [(Prod.mk.inj (Option.some.inj hrun)).1]
  | cons x xs ih =>
    obtain ⟨s₁, hrest, hexempt, -⟩ := h.modified hrun
    rw [ih (fun y hy => hxs y (List.mem_cons_of_mem _ hy)) hrest]
    exact (hexempt (hxs x List.mem_cons_self)).2

theorem IdLoop.ended (h : IdLoop call listed ends Exempt) {A M : List (DocumentId × Fields)}
    (hrun : call (A.map (change .added) ++ M.map (change .modified)) s = some (s', b)) :
    b = true := by
  obtain ⟨s₁, hrest, -⟩ := h.additions (K := ∅) hrun
  clear hrun
  induction M generalizing s₁ with
  | nil =>
    rw [List.map_nil, h.nil] at hrest
    exact (Prod.mk.inj (Option.some.inj hrest)).2.symm
  | cons x M ih =>
    obtain ⟨s₂, hrest₂, -⟩ := h.modified hrest
    exact ih s₂ hrest₂

variable {old new : Collection} {D : Difference old new}

/-- No removal that ends the callback is followed by one of a listed document, and where none does
the modified documents are listed or exempt. -/
structure LeavesNone (D : Difference old new) (listed ends : List String)
    (Exempt : Fields → Prop) : Prop where
  removed : ∀ pre x post, D.removed = pre ++ x :: post → x.1.val ∈ ends →
    ∀ y ∈ post, y.1.val ∉ listed
  modified : (∀ x ∈ D.removed, x.1.val ∉ ends) →
    ∀ y ∈ D.modified, Exempt y.2 ∨ y.1.val ∈ listed

theorem mem_new_of_mem_old (D : Difference old new) {k : String}
    (hk : k ∈ old.ids fun _ => True) (hR : k ∉ idsOf D.removed) : k ∈ new.ids fun _ => True := by
  rw [D.ids_new _ fun _ _ => trivial]
  refine .inl ⟨hk, ?_⟩
  rintro ⟨x, hx, rfl, -⟩
  exact hR (List.mem_map.mpr ⟨x, hx, rfl⟩)

theorem idsOf_added_nodup (D : Difference old new) : (idsOf D.added).Nodup := by
  have hmap : idsOf D.added = (D.added.map Prod.fst).map DocumentId.val := by
    simp [idsOf]
  rw [hmap]
  exact D.added_nodup.map fun _ _ he => DocumentId.ext_iff_val.mpr he

theorem IdLoop.single (h : IdLoop call listed ends Exempt)
    (hs : Single (listed s) (ends s) (old.ids fun _ => True))
    (hD : LeavesNone D (listed s) (ends s) Exempt) (hrun : call D.changes s = some (s', b)) :
    Single (listed s') (ends s') (new.ids fun _ => True) := by
  rcases h.removals hrun with
    ⟨pre, x, post, hsplit, hpre, hx, -, hl, he⟩ | ⟨hR, s₁, hrest, hl, he⟩
  · -- the callback returns at a removal; what is removed after it must not be listed
    rw [hl, he]
    refine (hs.cut hpre).mono fun k hk hold => mem_new_of_mem_old D hold fun hmem => ?_
    rw [hs.nodup.mem_sdiff_iff] at hk
    obtain ⟨y, hy, rfl⟩ := List.mem_map.mp hmem
    rw [hsplit, List.append_cons] at hy
    rcases List.mem_append.mp hy with hy | hy
    · exact hk.2 (List.mem_map.mpr ⟨y, hy, rfl⟩)
    · exact hD.removed pre x post hsplit hx y hy hk.1
  · -- it comes to its end: all removals, then the additions, then the modifications
    have hs₁ : Single (listed s₁) (ends s₁) (new.ids fun _ => True) := by
      rw [hl, he]
      refine (hs.diff hR).mono fun k hk hold => mem_new_of_mem_old D hold ?_
      exact (hs.nodup.mem_sdiff_iff.mp hk).2
    have hnew : ∀ x ∈ D.added, x.1.val ∉ listed s₁ := by
      intro x hx hmem
      rw [hl] at hmem
      exact D.added_notMem_ids hx _ (hs.own _ (List.diff_subset _ _ hmem))
    obtain ⟨s₂, hrun₂, hl₂, hsingle⟩ := h.additions (K := new.ids fun _ => True) hrest
    have hs₂ := hsingle hs₁ hnew (idsOf_added_nodup D)
    have hM : ∀ y ∈ D.modified, Exempt y.2 ∨ y.1.val ∈ listed s₂ := by
      intro y hy
      refine (hD.modified hR y hy).imp id fun hmem => ?_
      rw [hl₂, hl]
      refine List.mem_append_left _ (List.mem_diff_of_mem hmem fun hgone => ?_)
      obtain ⟨x, hx, he⟩ := List.mem_map.mp hgone
      exact (D.modified_kept hy).2 ⟨x, hx, he, trivial⟩
    refine (h.modifications hrun₂ hs₂ hM).mono fun k _ hk => ?_
    rcases hk with hk | hk
    · exact hk
    · obtain ⟨x, hx, rfl⟩ := List.mem_map.mp hk
      exact ⟨x.1, x.2, rfl, ((D.mem_added x).mp hx).2, trivial⟩

theorem IdLoop.shrinks (h : IdLoop call listed ends Exempt) (hs : Single (listed s) (ends s) K)
    (hA : D.added = []) (hM : ∀ y ∈ D.modified, Exempt y.2)
    (hrun : call D.changes s = some (s', b)) : Single (listed s') (ends s') K := by
  rcases h.removals hrun with ⟨pre, x, post, -, hpre, -, -, hl, he⟩ | ⟨hR, s₁, hrest, hl, he⟩
  · rw [hl, he]
    exact hs.cut hpre
  · rw [hA, List.map_nil, List.nil_append] at hrest
    have hs₁ : Single (listed s₁) (ends s₁) K := by
      rw [hl, he]
      exact hs.diff hR
    exact h.modifications hrest hs₁ fun y hy => .inl (hM y hy)

theorem IdLoop.listed_of_added (h : IdLoop call listed ends Exempt) (hR : D.removed = [])
    (hM : D.modified = []) (hrun : call D.changes s = some (s', b)) :
    listed s' = listed s ++ idsOf D.added := by
  unfold Difference.changes at hrun
  rw [hR, hM, List.map_nil, List.map_nil, List.nil_append] at hrun
  obtain ⟨s₁, hrest, hlisted, -⟩ := h.additions (K := ∅) hrun
  rw [h.nil] at hrest
  obtain ⟨rfl, -⟩ := Prod.mk.inj (Option.some.inj hrest)
  exact hlisted

end Batch
end Zeenoc
