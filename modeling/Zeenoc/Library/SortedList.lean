import Mathlib.Data.List.InsertIdx
import Mathlib.Data.List.Sort

/-! Lists that are strictly ordered by a three-way comparison: insertion, removal, positions, and
the first entries of a list that is known only in part. -/

namespace SortedList
variable {α : Type} (cmp : α → α → Ordering)

def Sorted (l : List α) : Prop := l.Pairwise fun a b => cmp a b = .lt

/-- For an `a` that no entry compares equal to. -/
def insert (a : α) (l : List α) : List α := l.orderedInsert (fun x y => cmp x y = .lt) a

def erase (a : α) (l : List α) : List α := l.eraseP fun b => cmp b a = .eq

/-- From the first entry that is not `before` the start, as long as `p` holds. -/
def scan (before p : α → Bool) (l : List α) : List α := (l.dropWhile before).takeWhile p

def findIndex (a : α) (l : List α) : Option ℕ := l.findIdx? fun b => cmp b a = .eq

variable {cmp} {a b x : α} {l l' : List α}

theorem sorted_nil : Sorted cmp [] := List.Pairwise.nil

theorem Sorted.tail (h : Sorted cmp (a :: l)) : Sorted cmp l := (List.pairwise_cons.mp h).2

theorem Sorted.head_lt (h : Sorted cmp (a :: l)) (hb : b ∈ l) : cmp a b = .lt :=
  (List.pairwise_cons.mp h).1 b hb

theorem Sorted.sublist (h : Sorted cmp l) (hs : l'.Sublist l) : Sorted cmp l' :=
  List.Pairwise.sublist hs h

@[simp] theorem mem_insert : x ∈ insert cmp a l ↔ x = a ∨ x ∈ l :=
  (List.perm_orderedInsert _ a l).mem_iff.trans List.mem_cons

theorem Sorted.erase (h : Sorted cmp l) (a : α) : Sorted cmp (erase cmp a l) :=
  h.sublist List.eraseP_sublist

variable [Std.TransCmp cmp]

theorem transCmp_comap {β : Type} (cmp : α → α → Ordering) [Std.TransCmp cmp] (f : β → α) :
    Std.TransCmp fun a b => cmp (f a) (f b) where
  eq_swap := Std.OrientedCmp.eq_swap
  isLE_trans := Std.TransCmp.isLE_trans

theorem ne_of_lt (h : cmp a b = .lt) : a ≠ b := by
  rintro rfl
  rw [@Std.ReflCmp.compare_self _ cmp] at h
  cases h

theorem not_lt_of_lt (h : cmp a b = .lt) : cmp b a ≠ .lt := by
  rw [@Std.OrientedCmp.eq_swap _ cmp, h]
  decide

theorem lt_or_lt (h : cmp a b ≠ .eq) : cmp a b = .lt ∨ cmp b a = .lt := by
  cases hab : cmp a b with
  | lt => exact .inl rfl
  | eq => exact absurd hab h
  | gt => exact .inr (Std.OrientedCmp.gt_iff_lt.mp hab)

theorem Sorted.nodup (h : Sorted cmp l) : l.Nodup := List.Pairwise.imp ne_of_lt h

theorem Sorted.eq_of_mem_iff (h : Sorted cmp l) (h' : Sorted cmp l')
    (hmem : ∀ x, x ∈ l ↔ x ∈ l') : l = l' := by
  have hperm : l.Perm l' := (List.perm_ext_iff_of_nodup h.nodup h'.nodup).mpr hmem
  exact hperm.eq_of_pairwise (fun x y _ _ (hxy : cmp x y = .lt) (hyx : cmp y x = .lt) =>
    absurd hyx (not_lt_of_lt hxy)) h h'

theorem Sorted.eq_of_cmp_eq (h : Sorted cmp l) (ha : a ∈ l) (hb : b ∈ l) (hab : cmp a b = .eq) :
    a = b := by
  induction l with
  | nil => cases ha
  | cons c l ih =>
    rcases List.mem_cons.mp ha with hac | hal
    · rcases List.mem_cons.mp hb with hbc | hbl
      · exact hac.trans hbc.symm
      · have hlt := h.head_lt hbl
        rw [← hac, hab] at hlt
        cases hlt
    · rcases List.mem_cons.mp hb with hbc | hbl
      · have hlt := h.head_lt hal
        rw [← hbc, Std.OrientedCmp.eq_comm.mp hab] at hlt
        cases hlt
      · exact ih h.tail hal hbl

theorem Sorted.insert (h : Sorted cmp l) (ha : ∀ b ∈ l, cmp a b ≠ .eq) :
    Sorted cmp (insert cmp a l) := by
  induction l with
  | nil => exact List.pairwise_singleton _ _
  | cons b l ih =>
    unfold SortedList.insert
    rw [List.orderedInsert_cons]
    by_cases hab : cmp a b = .lt
    · rw [if_pos hab]
      refine List.pairwise_cons.mpr ⟨fun c hc => ?_, h⟩
      rcases List.mem_cons.mp hc with rfl | hc
      · exact hab
      · exact Std.TransCmp.lt_trans hab (h.head_lt hc)
    · rw [if_neg hab]
      refine List.pairwise_cons.mpr ⟨fun c hc => ?_, ih h.tail fun c hc =>
        ha c (List.mem_cons_of_mem _ hc)⟩
      rcases mem_insert.mp hc with rfl | hc
      · exact (lt_or_lt (ha b List.mem_cons_self)).resolve_left hab
      · exact h.head_lt hc

theorem Sorted.mem_erase (h : Sorted cmp l) : x ∈ SortedList.erase cmp a l ↔
    x ∈ l ∧ cmp x a ≠ .eq := by
  induction l with
  | nil => simp [SortedList.erase]
  | cons b l ih =>
    unfold SortedList.erase at ih ⊢
    by_cases hba : cmp b a = .eq
    · rw [List.eraseP_cons_of_pos (by simpa using hba), List.mem_cons]
      constructor
      · intro hx
        refine ⟨.inr hx, fun hxa => ?_⟩
        have hlt := h.head_lt hx
        rw [Std.TransCmp.congr_left hba, Std.OrientedCmp.eq_comm.mp hxa] at hlt
        cases hlt
      · rintro ⟨rfl | hx, hxa⟩
        · exact absurd hba hxa
        · exact hx
    · rw [List.eraseP_cons_of_neg (by simpa using hba), List.mem_cons, List.mem_cons, ih h.tail]
      constructor
      · rintro (rfl | ⟨hx, hxa⟩)
        · exact ⟨.inl rfl, hba⟩
        · exact ⟨.inr hx, hxa⟩
      · rintro ⟨rfl | hx, hxa⟩
        · exact .inl rfl
        · exact .inr ⟨hx, hxa⟩

theorem Sorted.le_getLast (h : Sorted cmp l) (ha : a ∈ l) (hb : l.getLast? = some b) :
    cmp a b ≠ .gt := by
  obtain ⟨before, rfl⟩ := List.getLast?_eq_some_iff.mp hb
  rcases List.mem_append.mp ha with ha | ha
  · rw [(List.pairwise_append.mp h).2.2 a ha b (List.mem_singleton_self b)]
    decide
  · rw [List.mem_singleton.mp ha, @Std.ReflCmp.compare_self _ cmp]
    decide

theorem Sorted.head_le (h : Sorted cmp l) (ha : a ∈ l) (hb : l.head? = some b) :
    cmp b a ≠ .gt := by
  obtain ⟨rest, rfl⟩ := List.head?_eq_some_iff.mp hb
  rcases List.mem_cons.mp ha with rfl | ha
  · rw [@Std.ReflCmp.compare_self _ cmp]
    decide
  · rw [h.head_lt ha]
    decide

omit [Std.TransCmp cmp] in
theorem Sorted.takeWhile_eq_filter {p : α → Bool} (h : Sorted cmp l)
    (hp : ∀ a ∈ l, ∀ b ∈ l, cmp a b = .lt → p b → p a) : l.takeWhile p = l.filter p := by
  induction l with
  | nil => rfl
  | cons a l ih =>
    have ih := ih h.tail fun x hx y hy => hp x (List.mem_cons_of_mem _ hx) y
      (List.mem_cons_of_mem _ hy)
    cases ha : p a with
    | true => rw [List.takeWhile_cons_of_pos ha, List.filter_cons_of_pos ha, ih]
    | false =>
      have hnone : l.filter p = [] := by
        apply List.filter_eq_nil_iff.mpr
        intro b hb hpb
        have hpa := hp a List.mem_cons_self b (List.mem_cons_of_mem _ hb) (h.head_lt hb) hpb
        rw [ha] at hpa
        cases hpa
      rw [List.takeWhile_cons_of_neg (by simp [ha]), List.filter_cons_of_neg (by simp [ha]), hnone]

omit [Std.TransCmp cmp] in
theorem Sorted.scan_eq_filter {before p : α → Bool} (h : Sorted cmp l)
    (hbefore : ∀ a ∈ l, ∀ b ∈ l, cmp a b = .lt → before b → before a)
    (hstart : ∀ a ∈ l, p a → ¬before a)
    (hp : ∀ a ∈ l, ∀ b ∈ l, ¬before a → cmp a b = .lt → p b → p a) :
    scan before p l = l.filter p := by
  unfold scan
  induction l with
  | nil => rfl
  | cons a l ih =>
    by_cases ha : before a
    · rw [List.dropWhile_cons_of_pos ha,
        List.filter_cons_of_neg fun hpa => hstart a List.mem_cons_self hpa ha]
      exact ih h.tail (fun x hx y hy => hbefore x (List.mem_cons_of_mem _ hx) y
        (List.mem_cons_of_mem _ hy)) (fun b hb => hstart b (List.mem_cons_of_mem _ hb))
        fun x hx y hy => hp x (List.mem_cons_of_mem _ hx) y (List.mem_cons_of_mem _ hy)
    · rw [List.dropWhile_cons_of_neg ha]
      refine h.takeWhile_eq_filter fun x hx y hy hxy => hp x hx y hy ?_ hxy
      rcases List.mem_cons.mp hx with rfl | hx
      · exact ha
      · exact fun hbx => ha (hbefore a List.mem_cons_self x (List.mem_cons_of_mem _ hx)
          (h.head_lt hx) hbx)

theorem Sorted.scan_from_eq_filter {start : α} {p : α → Bool} (h : Sorted cmp l)
    (hstart : ∀ a ∈ l, p a → cmp a start ≠ .lt)
    (hp : ∀ a ∈ l, ∀ b ∈ l, cmp a start ≠ .lt → cmp a b = .lt → p b → p a) :
    scan (fun a => cmp a start = .lt) p l = l.filter p := by
  refine h.scan_eq_filter (fun a ha b hb hab hlt => ?_) (fun a ha hpa hlt => ?_)
    fun a ha b hb hge hab => hp a ha b hb (by simpa using hge) hab
  · exact decide_eq_true (Std.TransCmp.lt_trans hab (of_decide_eq_true hlt))
  · exact hstart a ha hpa (of_decide_eq_true hlt)

omit [Std.TransCmp cmp] in
theorem Sorted.reverse (h : Sorted cmp l) : Sorted (fun x y => cmp y x) l.reverse :=
  List.pairwise_reverse.mpr h

section Positions
variable {i n : ℕ}

omit [Std.TransCmp cmp] in
theorem erase_eq_eraseIdx (hi : findIndex cmp a l = some i) : erase cmp a l = l.eraseIdx i := by
  unfold erase
  rw [List.eraseP_eq_eraseIdx]
  unfold findIndex at hi
  rw [hi]

theorem findIndex_of_mem (cmp : α → α → Ordering) [Std.TransCmp cmp] (ha : a ∈ l) :
    ∃ i, findIndex cmp a l = some i := by
  cases h : findIndex cmp a l with
  | some i => exact ⟨i, rfl⟩
  | none =>
    have hne := List.findIdx?_eq_none_iff.mp h a ha
    simp [@Std.ReflCmp.compare_self _ cmp] at hne

theorem Sorted.getElem?_findIndex (h : Sorted cmp l) (ha : a ∈ l)
    (hi : findIndex cmp a l = some i) : l[i]? = some a := by
  obtain ⟨hlt, heq, -⟩ := List.findIdx?_eq_some_iff_getElem.mp hi
  have hmem : l[i] ∈ l := List.getElem_mem hlt
  rw [List.getElem?_eq_getElem hlt, h.eq_of_cmp_eq hmem ha (by simpa using heq)]

theorem Sorted.erase_insert (h : Sorted cmp l) (ha : ∀ b ∈ l, cmp a b ≠ .eq) :
    SortedList.erase cmp a (SortedList.insert cmp a l) = l := by
  apply Sorted.eq_of_mem_iff ((h.insert ha).erase a) h
  intro x
  rw [(h.insert ha).mem_erase, mem_insert]
  constructor
  · rintro ⟨rfl | hx, hxa⟩
    · exact absurd Std.ReflCmp.compare_self hxa
    · exact hx
  · exact fun hx => ⟨.inr hx, fun hxa => ha x hx (Std.OrientedCmp.eq_comm.mp hxa)⟩

theorem Sorted.insert_eq_insertIdx (h : Sorted cmp l) (ha : ∀ b ∈ l, cmp a b ≠ .eq)
    (hi : findIndex cmp a (SortedList.insert cmp a l) = some i) :
    i ≤ l.length ∧ SortedList.insert cmp a l = l.insertIdx i a := by
  have hmem : a ∈ SortedList.insert cmp a l := mem_insert.mpr (.inl rfl)
  have hget := (h.insert ha).getElem?_findIndex hmem hi
  obtain ⟨hlt, hia⟩ := List.getElem?_eq_some_iff.mp hget
  have hback : (SortedList.insert cmp a l).eraseIdx i = l := by
    rw [← erase_eq_eraseIdx hi, h.erase_insert ha]
  have hlen := List.length_eraseIdx_of_lt hlt
  rw [hback] at hlen
  refine ⟨by omega, ?_⟩
  have hput := List.insertIdx_eraseIdx_getElem hlt
  rw [hia, hback] at hput
  exact hput.symm

theorem Sorted.take_eq {s : List α} (h : Sorted cmp l) (hs : s.Sublist l) (hn : n ≤ s.length)
    (hout : ∀ x ∈ l, x ∉ s → ∀ y ∈ s.take n, cmp y x = .lt) : l.take n = s.take n := by
  induction hs generalizing n with
  | slnil => rfl
  | @cons s l x hs ih =>
    cases n with
    | zero => rfl
    | succ n =>
      cases s with
      | nil => simp at hn
      | cons y s =>
        have hxy : cmp x y = .lt := h.head_lt (hs.subset List.mem_cons_self)
        by_cases hx : x ∈ y :: s
        · exact absurd (h.nodup) (by simp [hs.subset hx])
        · have hyx := hout x List.mem_cons_self hx y (by simp)
          exact absurd hyx (not_lt_of_lt hxy)
  | @cons_cons s l x hs ih =>
    cases n with
    | zero => rfl
    | succ n =>
      rw [List.take_succ_cons, List.take_succ_cons]
      congr 1
      refine ih h.tail (by simpa using hn) fun y hy hys z hz => ?_
      have hyx : y ≠ x := fun he => ne_of_lt (h.head_lt hy) he.symm
      exact hout y (List.mem_cons_of_mem _ hy) (by simp [hyx, hys]) z (by simp [hz])

theorem Sorted.take_eq_take (h : Sorted cmp l) (h' : Sorted cmp l') (bound : α)
    (hmem : ∀ x, cmp x bound ≠ .gt → (x ∈ l ↔ x ∈ l'))
    (hn : n ≤ (l.filter fun x => cmp x bound ≠ .gt).length) : l.take n = l'.take n := by
  have hsame : (l.filter fun x => cmp x bound ≠ .gt) = l'.filter fun x => cmp x bound ≠ .gt := by
    apply (h.sublist List.filter_sublist).eq_of_mem_iff (h'.sublist List.filter_sublist)
    intro x
    rw [List.mem_filter, List.mem_filter]
    constructor
    · exact fun ⟨hx, hb⟩ => ⟨(hmem x (by simpa using hb)).mp hx, hb⟩
    · exact fun ⟨hx, hb⟩ => ⟨(hmem x (by simpa using hb)).mpr hx, hb⟩
  have hfirst : ∀ {l : List α}, Sorted cmp l → n ≤ (l.filter fun x => cmp x bound ≠ .gt).length →
      l.take n = (l.filter fun x => cmp x bound ≠ .gt).take n := by
    intro l hl hlen
    refine hl.take_eq List.filter_sublist hlen fun x hx hout y hy => ?_
    have hy := List.of_mem_filter (List.mem_of_mem_take hy)
    have hxb : cmp x bound = .gt := by
      by_contra hne
      exact hout (List.mem_filter.mpr ⟨hx, by simpa using hne⟩)
    have hyb : (cmp y bound).isLE := Ordering.isLE_iff_ne_gt.mpr (by simpa using hy)
    exact Std.TransCmp.lt_of_isLE_of_lt hyb (Std.OrientedCmp.gt_iff_lt.mp hxb)
  rw [hfirst h hn, hsame, ← hfirst h' (hsame ▸ hn)]

/-- A part of a list is known. The entries of some keys change, and `known` is what is known then of
the `new` list. -/
structure Patched {κ : Type} (key : α → κ) (changed : κ → Prop) (all part known new : List α) :
    Prop where
  edited : ∀ x, changed (key x) → (x ∈ known ↔ x ∈ new)
  kept : ∀ x, ¬changed (key x) → (x ∈ known ↔ x ∈ part)
  keptNew : ∀ x, ¬changed (key x) → (x ∈ new ↔ x ∈ all)

section Patched
variable {κ : Type} {key : α → κ} {changed : κ → Prop} {all known new : List α} {bound : α}

omit [Std.TransCmp cmp] in
theorem Patched.reverse {part : List α} (h : Patched key changed all part known new) :
    Patched key changed all.reverse part.reverse known.reverse new.reverse where
  edited x hx := by rw [List.mem_reverse, List.mem_reverse, h.edited x hx]
  kept x hx := by rw [List.mem_reverse, List.mem_reverse, h.kept x hx]
  keptNew x hx := by rw [List.mem_reverse, List.mem_reverse, h.keptNew x hx]

/-- The first `n` entries are known, and those that change stay at or before the last one: then the
new list and what is known of it have the same first `n` entries. -/
theorem Patched.take_eq (h : Patched key changed all (all.take n) known new)
    (hall : Sorted cmp all) (hnew : Sorted cmp new) (hknown : Sorted cmp known)
    (hkeys : (all.map key).Nodup) (hlen : n ≤ all.length)
    (hbound : (all.take n).getLast? = some bound)
    (hin : ∀ o ∈ all.take n, ∃ x ∈ known, key x = key o ∧ cmp x bound ≠ .gt) :
    known.take n = new.take n := by
  have hmemBound : bound ∈ all.take n := List.mem_of_getLast? hbound
  have hfirst : ∀ x ∈ all, cmp x bound ≠ .gt → x ∈ all.take n := by
    intro x hx hxb
    rw [← List.take_append_drop n all, List.mem_append] at hx
    refine hx.resolve_right fun hdrop => hxb (Std.OrientedCmp.gt_iff_lt.mpr ?_)
    have hsplit : Sorted cmp (all.take n ++ all.drop n) := by
      rw [List.take_append_drop]
      exact hall
    exact (List.pairwise_append.mp hsplit).2.2 bound hmemBound x hdrop
  apply hknown.take_eq_take hnew bound
  · intro x hxb
    by_cases hx : changed (key x)
    · exact h.edited x hx
    · rw [h.kept x hx, h.keptNew x hx]
      exact ⟨List.mem_of_mem_take, fun hmem => hfirst x hmem hxb⟩
  · -- the entries at or before the bound are at least as many as the known ones were
    have hsub : (all.take n).map key ⊆
        (known.filter fun x => cmp x bound ≠ .gt).map key := by
      intro k hk
      obtain ⟨o, ho, rfl⟩ := List.mem_map.mp hk
      obtain ⟨x, hx, hxo, hxb⟩ := hin o ho
      exact List.mem_map.mpr ⟨x, List.mem_filter.mpr ⟨hx, by simpa using hxb⟩, hxo⟩
    have hnodup : ((all.take n).map key).Nodup :=
      hkeys.sublist ((List.take_sublist n all).map key)
    have hle := (List.subperm_of_subset hnodup hsub).length_le
    rwa [List.length_map, List.length_map, List.length_take, Nat.min_eq_left hlen] at hle

/-- The same for the last `n` entries. -/
theorem Patched.drop_eq (h : Patched key changed all (all.drop (all.length - n)) known new)
    (hall : Sorted cmp all) (hnew : Sorted cmp new) (hknown : Sorted cmp known)
    (hkeys : (all.map key).Nodup) (hlen : n ≤ all.length)
    (hbound : (all.drop (all.length - n)).head? = some bound)
    (hin : ∀ o ∈ all.drop (all.length - n), ∃ x ∈ known, key x = key o ∧ cmp bound x ≠ .gt) :
    known.drop (known.length - n) = new.drop (new.length - n) := by
  apply List.reverse_injective
  rw [← List.take_reverse, ← List.take_reverse]
  have hlast : (all.reverse.take n).getLast? = some bound := by
    rw [List.take_reverse, List.getLast?_reverse, hbound]
  have hreverse := h.reverse
  rw [← List.take_reverse] at hreverse
  refine hreverse.take_eq hall.reverse hnew.reverse hknown.reverse ?_ ?_ hlast ?_
  · rw [List.map_reverse, List.nodup_reverse]
    exact hkeys
  · rw [List.length_reverse]
    exact hlen
  · intro o ho
    rw [List.take_reverse, List.mem_reverse] at ho
    obtain ⟨x, hx, hxo, hxb⟩ := hin o ho
    exact ⟨x, List.mem_reverse.mpr hx, hxo, hxb⟩

end Patched

end Positions

section Lexicographic
variable {α : Type} [Ord α] {p a s r : List α}

theorem compare_append [Std.ReflOrd α] (p r s : List α) :
    compare (p ++ r) (p ++ s) = compare r s := by
  induction p with
  | nil => rfl
  | cons x p ih =>
    rw [List.cons_append, List.cons_append, List.compare_cons_cons, Std.ReflOrd.compare_self, ih]
    rfl

theorem isPrefix_of_between [Std.LawfulEqOrd α] (hs : compare a (p ++ s) ≠ .lt)
    (hr : compare a (p ++ r) ≠ .gt) : p <+: a := by
  induction p generalizing a with
  | nil => exact List.nil_prefix
  | cons x p ih =>
    cases a with
    | nil => exact absurd List.compare_nil_cons hs
    | cons y a =>
      rw [List.cons_append, List.compare_cons_cons] at hs hr
      cases hxy : compare y x with
      | lt => simp [hxy] at hs
      | gt => simp [hxy] at hr
      | eq =>
        rw [hxy] at hs hr
        obtain rfl : y = x := Std.LawfulEqCmp.eq_of_compare hxy
        exact List.cons_prefix_cons.mpr ⟨rfl, ih hs hr⟩

end Lexicographic
end SortedList
