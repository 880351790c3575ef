import Zeenoc.Library.KeyedList
import Zeenoc.Firestore.History
import Zeenoc.Objects

/-! `LandlordVC.firebaseCall`, the listener that keeps `properties` and `tenantProperties`. -/

namespace Zeenoc.LandlordVC
open Firestore KeyedList

structure Lists where
  properties : List Property
  tenantProperties : List Property

def added (id : DocumentId) (d : Fields) (s : Lists) : Option Lists := do
  let p ← Property.ofDocument id d
  some {
    properties := s.properties ++ [p]
    tenantProperties :=
      if (d.getString "tenantName").isSome then s.tenantProperties ++ [p]
      else s.tenantProperties }

def setTenant (id : DocumentId) (tenantName tenantID : String) (p : Property) : Property :=
  if p.id = id.val then { p with tenantName := tenantName, tenantID := tenantID } else p

def modified (id : DocumentId) (d : Fields) (s : Lists) : Option Lists := do
  let tenantName ← d.getString "tenantName"
  let tenantID ← d.getString "tenantID"
  -- `properties[0]`, also when the name is the placeholder
  let first ← s.properties.head?
  if tenantName = "N/A" then some s else
    let properties := s.properties.map (setTenant id tenantName tenantID)
    let curr := properties.foldl (fun curr p => if p.id = id.val then p else curr) first
    let tenantProperties := s.tenantProperties.map (setTenant id tenantName tenantID)
    some {
      properties := properties
      tenantProperties :=
        if ∃ p ∈ s.tenantProperties, p.id = id.val then tenantProperties
        else tenantProperties ++ [curr] }

/-- The loop over `snap!.documentChanges`. The flag tells whether the callback came to its end,
where it queues the completion block; `none` is a trap. -/
def firebaseCall : List DocumentChange → Lists → Option (Lists × Bool)
  | [], s => some (s, true)
  | c :: cs, s =>
    match c.type with
    | .added => (added c.documentID c.document s).bind (firebaseCall cs)
    | .modified => (modified c.documentID c.document s).bind (firebaseCall cs)
    | .removed =>
      let properties := s.properties.eraseP fun p => p.id = c.documentID.val
      -- the search in the tenants' list ends in `return`, not in `break`
      if ∃ p ∈ s.tenantProperties, p.id = c.documentID.val then
        some (⟨properties, s.tenantProperties.eraseP fun p => p.id = c.documentID.val⟩, false)
      else firebaseCall cs { s with properties := properties }

def listener (cs : List DocumentChange) (s : Lists) : Option Lists :=
  (firebaseCall cs s).map Prod.fst

def HasTenant (d : Fields) : Prop := (d.getString "tenantName").isSome

instance (d : Fields) : Decidable (HasTenant d) := inferInstanceAs (Decidable (_ = true))

/-- What an acceptance leaves in a document. -/
def Named (d : Fields) : Prop :=
  ∃ tenantName tenantID, d.getString "tenantName" = some tenantName ∧ tenantName ≠ "N/A" ∧
    d.getString "tenantID" = some tenantID

theorem Named.hasTenant {d : Fields} (h : Named d) : HasTenant d := by
  obtain ⟨tenantName, -, hname, -⟩ := h
  simp [HasTenant, hname]

section Loop
variable {S U : Set String} {s : Lists} (rest : List DocumentChange)

theorem firebaseCall_removed {R : List (DocumentId × Fields)}
    (hP : KeyedList.Lists Property.id s.properties S)
    (hT : KeyedList.Lists Property.id s.tenantProperties U) (hR : ∀ x ∈ R, x.1.val ∉ U) :
    ∃ P, firebaseCall (R.map (change .removed) ++ rest) s =
        firebaseCall rest { s with properties := P } ∧
      KeyedList.Lists Property.id P (S \ keys (fun _ => True) R) := by
  induction R generalizing s S with
  | nil => exact ⟨s.properties, rfl, hP.congr (by simp)⟩
  | cons x R ih =>
    have hx : ¬ ∃ p ∈ s.tenantProperties, p.id = x.1.val := by
      rw [hT.exists_iff]
      exact hR x List.mem_cons_self
    obtain ⟨P, hrun, hlist⟩ := ih (s := ⟨s.properties.eraseP fun p => p.id = x.1.val,
      s.tenantProperties⟩) (hP.eraseP x.1.val) hT fun y hy => hR y (List.mem_cons_of_mem _ hy)
    refine ⟨P, ?_, hlist.congr fun k => ?_⟩
    · rw [← hrun]
      exact if_neg hx
    · rw [Set.mem_sdiff, Set.mem_sdiff, Set.mem_singleton_iff, Set.mem_sdiff, mem_keys_cons]
      tauto

theorem firebaseCall_stop {pre : List (DocumentId × Fields)} {x : DocumentId × Fields}
    (hP : KeyedList.Lists Property.id s.properties S)
    (hT : KeyedList.Lists Property.id s.tenantProperties U) (hpre : ∀ y ∈ pre, y.1.val ∉ U)
    (hx : x.1.val ∈ U) :
    ∃ s', firebaseCall (pre.map (change .removed) ++ change .removed x :: rest) s =
        some (s', false) ∧
      KeyedList.Lists Property.id s'.properties (S \ keys (fun _ => True) (pre ++ [x])) ∧
      KeyedList.Lists Property.id s'.tenantProperties (U \ {x.1.val}) := by
  obtain ⟨P, hrun, hlist⟩ := firebaseCall_removed (change .removed x :: rest) hP hT hpre
  have hmem : ∃ p ∈ s.tenantProperties, p.id = x.1.val := (hT.exists_iff _).mpr hx
  refine ⟨⟨P.eraseP fun p => p.id = x.1.val, s.tenantProperties.eraseP fun p => p.id = x.1.val⟩,
    ?_, (hlist.eraseP x.1.val).congr fun k => ?_, hT.eraseP x.1.val⟩
  · rw [hrun]
    exact if_pos hmem
  · rw [Set.mem_sdiff, Set.mem_sdiff, Set.mem_singleton_iff, Set.mem_sdiff, mem_keys_append,
      mem_keys_cons]
    have hnil := not_mem_keys_nil (fun _ => True) k
    tauto

theorem added_listed {id : DocumentId} {d : Fields}
    (hP : KeyedList.Lists Property.id s.properties S)
    (hT : KeyedList.Lists Property.id s.tenantProperties U) (hd : Complete d) (hS : id.val ∉ S)
    (hU : id.val ∉ U) :
    ∃ s', added id d s = some s' ∧
      KeyedList.Lists Property.id s'.properties (insert id.val S) ∧
      KeyedList.Lists Property.id s'.tenantProperties {k | k ∈ U ∨ k = id.val ∧ HasTenant d} := by
  obtain ⟨p, hp⟩ := hd.ofDocument id
  have hid : p.id = id.val := Property.ofDocument_id hp
  have hP' : KeyedList.Lists Property.id (s.properties ++ [p]) (insert id.val S) := by
    have happ := hP.append (r := p) (hid ▸ hS)
    rwa [hid] at happ
  by_cases htenant : HasTenant d
  · have hadded : added id d s = some ⟨s.properties ++ [p], s.tenantProperties ++ [p]⟩ := by
      unfold HasTenant at htenant
      simp [added, hp, htenant]
    refine ⟨_, hadded, hP', ?_⟩
    have happ := hT.append (r := p) (hid ▸ hU)
    rw [hid] at happ
    refine happ.congr fun k => ?_
    show k = id.val ∨ k ∈ U ↔ k ∈ U ∨ k = id.val ∧ HasTenant d
    tauto
  · have hadded : added id d s = some ⟨s.properties ++ [p], s.tenantProperties⟩ := by
      unfold HasTenant at htenant
      simp [added, hp, htenant]
    refine ⟨_, hadded, hP', hT.congr fun k => ?_⟩
    show k ∈ U ↔ k ∈ U ∨ k = id.val ∧ HasTenant d
    tauto

theorem firebaseCall_added {A : List (DocumentId × Fields)}
    (hP : KeyedList.Lists Property.id s.properties S)
    (hT : KeyedList.Lists Property.id s.tenantProperties U) (hA : ∀ x ∈ A, Complete x.2)
    (hnew : ∀ x ∈ A, x.1.val ∉ S ∧ x.1.val ∉ U) (hdup : (A.map Prod.fst).Nodup) :
    ∃ s', firebaseCall (A.map (change .added) ++ rest) s = firebaseCall rest s' ∧
      KeyedList.Lists Property.id s'.properties (S ∪ keys (fun _ => True) A) ∧
      KeyedList.Lists Property.id s'.tenantProperties (U ∪ keys HasTenant A) := by
  induction A generalizing s S U with
  | nil => exact ⟨s, rfl, hP.congr (by simp), hT.congr (by simp)⟩
  | cons x A ih =>
    rw [List.map_cons, List.nodup_cons] at hdup
    obtain ⟨hxS, hxU⟩ := hnew x List.mem_cons_self
    obtain ⟨s₁, hs₁, hP₁, hT₁⟩ := added_listed hP hT (hA x List.mem_cons_self) hxS hxU
    have hnew₁ : ∀ y ∈ A, y.1.val ∉ insert x.1.val S ∧
        y.1.val ∉ {k | k ∈ U ∨ k = x.1.val ∧ HasTenant x.2} := by
      intro y hy
      obtain ⟨hyS, hyU⟩ := hnew y (List.mem_cons_of_mem _ hy)
      have hne : y.1.val ≠ x.1.val := by
        intro he
        exact hdup.1 (List.mem_map.mpr ⟨y, hy, DocumentId.ext_iff_val.mpr he⟩)
      exact ⟨fun h => h.elim hne hyS, fun h => h.elim hyU fun h' => hne h'.1⟩
    obtain ⟨s', hrun, hP', hT'⟩ := ih hP₁ hT₁ (fun y hy => hA y (List.mem_cons_of_mem _ hy)) hnew₁
      hdup.2
    refine ⟨s', ?_, hP'.congr fun k => ?_, hT'.congr fun k => ?_⟩
    · rw [← hrun, List.map_cons, List.cons_append, firebaseCall]
      show (added x.1 x.2 s).bind _ = _
      rw [hs₁, Option.bind_some]
    · rw [Set.mem_union, Set.mem_insert_iff, Set.mem_union, mem_keys_cons]
      tauto
    · rw [Set.mem_union, Set.mem_union, mem_keys_cons]
      show (k ∈ U ∨ k = x.1.val ∧ HasTenant x.2) ∨ _ ↔ _
      tauto

theorem setTenant_id (id : DocumentId) (tenantName tenantID : String) (p : Property) :
    (setTenant id tenantName tenantID p).id = p.id := by
  unfold setTenant
  split <;> rfl

theorem map_setTenant (id : DocumentId) (tenantName tenantID : String) (l : List Property) :
    (l.map (setTenant id tenantName tenantID)).map Property.id = l.map Property.id := by
  rw [List.map_map]
  exact List.map_congr_left fun p _ => setTenant_id id tenantName tenantID p

theorem foldl_curr_id {k : String} (l : List Property) (first : Property)
    (h : first.id = k ∨ ∃ p ∈ l, p.id = k) :
    (l.foldl (fun curr p => if p.id = k then p else curr) first).id = k := by
  induction l generalizing first with
  | nil => simpa using h
  | cons p l ih =>
    rw [List.foldl_cons]
    apply ih
    by_cases hp : p.id = k
    · exact .inl (by rw [if_pos hp, hp])
    · rw [if_neg hp]
      simpa [hp] using h

theorem modified_listed {id : DocumentId} {d : Fields}
    (hP : KeyedList.Lists Property.id s.properties S)
    (hT : KeyedList.Lists Property.id s.tenantProperties U) (hd : Named d) (hid : id.val ∈ S) :
    ∃ s', modified id d s = some s' ∧ KeyedList.Lists Property.id s'.properties S ∧
      KeyedList.Lists Property.id s'.tenantProperties (insert id.val U) := by
  obtain ⟨tenantName, tenantID, hname, hplaceholder, hten⟩ := hd
  obtain ⟨p, hp, hpid⟩ := (hP.exists_iff _).mpr hid
  obtain ⟨first, hfirst⟩ : ∃ first, s.properties.head? = some first := by
    cases hl : s.properties with
    | nil => simp [hl] at hp
    | cons q l => exact ⟨q, rfl⟩
  set properties := s.properties.map (setTenant id tenantName tenantID) with hprops
  set curr := properties.foldl (fun curr p => if p.id = id.val then p else curr) first with hcurr
  have hcurrid : curr.id = id.val := by
    apply foldl_curr_id
    refine .inr ⟨setTenant id tenantName tenantID p, List.mem_map_of_mem hp, ?_⟩
    rw [setTenant_id, hpid]
  have hP' : KeyedList.Lists Property.id properties S := hP.of_map_eq (map_setTenant ..)
  have hT' : KeyedList.Lists Property.id (s.tenantProperties.map (setTenant id tenantName tenantID))
      U := hT.of_map_eq (map_setTenant ..)
  by_cases hex : ∃ q ∈ s.tenantProperties, q.id = id.val
  · refine ⟨⟨properties, s.tenantProperties.map (setTenant id tenantName tenantID)⟩, ?_, hP', ?_⟩
    · simp only [modified, hname, hten, hfirst, Option.bind_eq_bind, Option.bind_some,
        if_neg hplaceholder, if_pos hex, ← hprops]
    · rw [Set.insert_eq_of_mem ((hT.exists_iff _).mp hex)]
      exact hT'
  · have hnot : curr.id ∉ U := by
      rw [hcurrid, ← hT.exists_iff]
      exact hex
    refine ⟨⟨properties, s.tenantProperties.map (setTenant id tenantName tenantID) ++ [curr]⟩,
      ?_, hP', ?_⟩
    · simp only [modified, hname, hten, hfirst, Option.bind_eq_bind, Option.bind_some,
        if_neg hplaceholder, if_neg hex, ← hprops, ← hcurr]
    · have happ := hT'.append hnot
      rwa [hcurrid] at happ

theorem firebaseCall_modified {M : List (DocumentId × Fields)}
    (hP : KeyedList.Lists Property.id s.properties S)
    (hT : KeyedList.Lists Property.id s.tenantProperties U) (hM : ∀ x ∈ M, Named x.2)
    (hin : ∀ x ∈ M, x.1.val ∈ S) :
    ∃ s', firebaseCall (M.map (change .modified) ++ rest) s = firebaseCall rest s' ∧
      KeyedList.Lists Property.id s'.properties S ∧
      KeyedList.Lists Property.id s'.tenantProperties (U ∪ keys (fun _ => True) M) := by
  induction M generalizing s U with
  | nil => exact ⟨s, rfl, hP, hT.congr (by simp)⟩
  | cons x M ih =>
    obtain ⟨s₁, hs₁, hP₁, hT₁⟩ := modified_listed hP hT (hM x List.mem_cons_self)
      (hin x List.mem_cons_self)
    obtain ⟨s', hrun, hP', hT'⟩ := ih hP₁ hT₁ (fun y hy => hM y (List.mem_cons_of_mem _ hy))
      fun y hy => hin y (List.mem_cons_of_mem _ hy)
    refine ⟨s', ?_, hP', hT'.congr fun k => ?_⟩
    · rw [← hrun, List.map_cons, List.cons_append, firebaseCall]
      show (modified x.1 x.2 s).bind _ = _
      rw [hs₁, Option.bind_some]
    · rw [Set.mem_union, Set.mem_insert_iff, Set.mem_union, mem_keys_cons]
      tauto

end Loop

section Batch
variable {old new : Collection} (D : Difference old new)

structure Follows (c : Collection) (s : Lists) : Prop where
  properties : KeyedList.Lists Property.id s.properties (c.ids fun _ => True)
  tenants : KeyedList.Lists Property.id s.tenantProperties (c.ids HasTenant)

structure WellFormed : Prop where
  complete : ∀ id d, new id = some d → Complete d
  named : ∀ x ∈ D.modified, Named x.2

/-- A removed property with a tenant is the last removal, nothing is added with it, and what is
modified with it had a tenant before. -/
def TailSafe : Prop := ∀ x ∈ D.removed, HasTenant x.2 →
  D.removed.getLast? = some x ∧ D.added = [] ∧ ∀ y ∈ D.modified, y.1.val ∈ old.ids HasTenant

variable {D}

theorem follows_of_untenanted {s : Lists} (hw : WellFormed D) (h : Follows old s)
    (hR : ∀ x ∈ D.removed, ¬ HasTenant x.2) :
    ∃ s', listener D.changes s = some s' ∧ Follows new s' := by
  obtain ⟨P, hrun₁, hP₁⟩ := firebaseCall_removed
    (D.added.map (change .added) ++ D.modified.map (change .modified)) h.properties h.tenants
    fun x hx hmem => hR x hx ((D.removed_mem_ids hx _).mp hmem)
  obtain ⟨s₂, hrun₂, hP₂, hT₂⟩ := firebaseCall_added (s := { s with properties := P })
    (D.modified.map (change .modified)) hP₁ h.tenants
    (fun x hx => hw.complete x.1 x.2 ((D.mem_added x).mp hx).2)
    (fun x hx => ⟨fun hmem => D.added_notMem_ids hx _ hmem.1, D.added_notMem_ids hx _⟩)
    D.added_nodup
  obtain ⟨s₃, hrun₃, hP₃, hT₃⟩ := firebaseCall_modified [] hP₂ hT₂ hw.named
    fun x hx => .inl (D.modified_kept hx)
  have hend : firebaseCall D.changes s = some (s₃, true) := by
    unfold Difference.changes
    rw [hrun₁, hrun₂, ← List.append_nil (D.modified.map _), hrun₃]
    rfl
  refine ⟨s₃, by rw [listener, hend]; rfl, ⟨hP₃.congr fun k => ?_, hT₃.congr fun k => ?_⟩⟩
  · rw [D.ids_new _ (fun _ _ => trivial), Set.mem_union, Set.mem_sdiff]
    have hM : k ∈ keys (fun _ => True) D.modified →
        k ∈ old.ids (fun _ => True) ∧ k ∉ keys (fun _ => True) D.removed := by
      rintro ⟨x, hx, rfl, -⟩
      exact D.modified_kept hx
    tauto
  · rw [D.ids_new _ (fun x hx => (hw.named x hx).hasTenant), Set.mem_union, Set.mem_union]
    have hM : k ∈ keys (fun _ => True) D.modified ↔ k ∈ keys HasTenant D.modified :=
      ⟨fun h => keys_mono (fun x hx _ => (hw.named x hx).hasTenant) h,
        fun h => keys_mono (fun _ _ _ => trivial) h⟩
    have hR' : k ∈ old.ids HasTenant → k ∉ keys (fun _ => True) D.removed := by
      rintro hk ⟨x, hx, rfl, -⟩
      exact hR x hx ((D.removed_mem_ids hx _).mp hk)
    tauto

section Tenanted
variable {s s' : Lists} {pre post : List (DocumentId × Fields)} {x : DocumentId × Fields}

theorem listener_stop (h : Follows old s) (hsplit : D.removed = pre ++ x :: post)
    (hpre : ∀ y ∈ pre, ¬ HasTenant y.2) (hx : HasTenant x.2) :
    ∃ s', listener D.changes s = some s' ∧
      KeyedList.Lists Property.id s'.properties
        (old.ids (fun _ => True) \ keys (fun _ => True) (pre ++ [x])) ∧
      KeyedList.Lists Property.id s'.tenantProperties (old.ids HasTenant \ {x.1.val}) := by
  have hxold : x.1.val ∈ old.ids HasTenant := (D.removed_mem_ids (by simp [hsplit]) _).mpr hx
  have hpreold : ∀ y ∈ pre, y.1.val ∉ old.ids HasTenant := by
    intro y hy hk
    exact hpre y hy ((D.removed_mem_ids (by simp [hsplit, hy]) _).mp hk)
  obtain ⟨s', hrun, hP, hT⟩ := firebaseCall_stop (post.map (change .removed) ++
    (D.added.map (change .added) ++ D.modified.map (change .modified))) h.properties h.tenants
    hpreold hxold
  refine ⟨s', ?_, hP, hT⟩
  unfold listener Difference.changes
  rw [hsplit, List.map_append, List.map_cons, List.append_assoc, List.cons_append, hrun]
  rfl

theorem Follows.nothing_left (hfollow : Follows new s') (hw : WellFormed D)
    (hsplit : D.removed = pre ++ x :: post)
    (hP : KeyedList.Lists Property.id s'.properties
      (old.ids (fun _ => True) \ keys (fun _ => True) (pre ++ [x])))
    (hT : KeyedList.Lists Property.id s'.tenantProperties (old.ids HasTenant \ {x.1.val})) :
    post = [] ∧ D.added = [] ∧ ∀ y ∈ D.modified, y.1.val ∈ old.ids HasTenant := by
  have hids := hP.unique hfollow.properties
  have htenants := hT.unique hfollow.tenants
  have hnodup : ((pre ++ [x]) ++ post).Nodup := by
    have hR := D.removed_nodup.of_map
    rwa [hsplit, List.append_cons] at hR
  refine ⟨List.eq_nil_iff_forall_not_mem.mpr fun y hy => ?_, D.added_eq_nil hids, fun y hy => ?_⟩
  · -- another removed property would still be listed
    have hyR : y ∈ D.removed := by simp [hsplit, hy]
    have hrest : y.1.val ∉ keys (fun _ => True) (pre ++ [x]) := by
      rintro ⟨z, hz, hzy, -⟩
      have hzR : z ∈ D.removed := by
        rw [hsplit, List.append_cons]
        exact List.mem_append_left _ hz
      obtain rfl := D.removed_key_inj hzR hyR hzy
      exact (List.nodup_append.mp hnodup).2.2 z hz z hy rfl
    have hyids : y.1.val ∈ new.ids fun _ => True :=
      hids ▸ ⟨(D.removed_mem_ids hyR _).mpr trivial, hrest⟩
    exact D.removed_notMem_ids hyR _ hyids
  · obtain ⟨d, -, hnew⟩ := D.modified_mem hy
    have hyids : y.1.val ∈ new.ids HasTenant := ⟨y.1, y.2, rfl, hnew, (hw.named y hy).hasTenant⟩
    rw [← htenants] at hyids
    exact hyids.1

theorem follows_of_nothing_left (hw : WellFormed D) (hsplit : D.removed = pre ++ [x])
    (hpre : ∀ y ∈ pre, ¬ HasTenant y.2) (hA : D.added = [])
    (hM : ∀ y ∈ D.modified, y.1.val ∈ old.ids HasTenant)
    (hP : KeyedList.Lists Property.id s'.properties
      (old.ids (fun _ => True) \ keys (fun _ => True) (pre ++ [x])))
    (hT : KeyedList.Lists Property.id s'.tenantProperties (old.ids HasTenant \ {x.1.val})) :
    Follows new s' := by
  have hmodified : ∀ k, k ∈ keys HasTenant D.modified →
      k ∈ old.ids (fun _ => True) ∧ k ∈ old.ids HasTenant ∧
        k ∉ keys (fun _ => True) D.removed := by
    rintro k ⟨y, hy, rfl, -⟩
    exact ⟨(D.modified_kept hy).1, hM y hy, (D.modified_kept hy).2⟩
  have hall : ∀ k, k ∈ keys (fun _ => True) D.modified → k ∈ keys HasTenant D.modified := by
    intro k hk
    exact keys_mono (fun y hy _ => (hw.named y hy).hasTenant) hk
  -- among the properties with a tenant only `x` was removed
  have honly : ∀ k ∈ old.ids HasTenant,
      k ∉ keys (fun _ => True) D.removed ↔ k ≠ x.1.val := by
    intro k hk
    refine ⟨fun hkR he => hkR ⟨x, by simp [hsplit], he.symm, trivial⟩, fun hne => ?_⟩
    rintro ⟨y, hy, rfl, -⟩
    have hty : HasTenant y.2 := (D.removed_mem_ids hy _).mp hk
    rw [hsplit] at hy
    rcases List.mem_append.mp hy with hy | hy
    · exact hpre y hy hty
    · exact hne (by rw [List.mem_singleton.mp hy])
  refine ⟨hP.congr fun k => ?_, hT.congr fun k => ?_⟩
  · rw [D.ids_new _ (fun _ _ => trivial), Set.mem_sdiff, hA, ← hsplit]
    have h1 := hmodified k
    have h2 := hall k
    have h3 := not_mem_keys_nil (fun _ => True) k
    tauto
  · rw [D.ids_new _ (fun y hy => (hw.named y hy).hasTenant), Set.mem_sdiff,
      Set.mem_singleton_iff, hA]
    have h1 := hmodified k
    have h2 := honly k
    have h3 := not_mem_keys_nil HasTenant k
    tauto

theorem follows_of_tenanted (hw : WellFormed D) (h : Follows old s)
    (hsplit : D.removed = pre ++ x :: post) (hpre : ∀ y ∈ pre, ¬ HasTenant y.2)
    (hx : HasTenant x.2) :
    (∃ s', listener D.changes s = some s' ∧ Follows new s') ↔
      post = [] ∧ D.added = [] ∧ ∀ y ∈ D.modified, y.1.val ∈ old.ids HasTenant := by
  obtain ⟨s', hs', hP, hT⟩ := listener_stop h hsplit hpre hx
  constructor
  · rintro ⟨s'', hs'', hfollow⟩
    obtain rfl := Option.some.inj (hs'.symm.trans hs'')
    exact hfollow.nothing_left hw hsplit hP hT
  · rintro ⟨rfl, hA, hM⟩
    exact ⟨s', hs', follows_of_nothing_left hw hsplit hpre hA hM hP hT⟩

end Tenanted

theorem follows_iff_tailSafe {s : Lists} (hw : WellFormed D) (h : Follows old s) :
    (∃ s', listener D.changes s = some s' ∧ Follows new s') ↔ TailSafe D := by
  cases hfind : D.removed.find? fun x => HasTenant x.2 with
  | none =>
    have hR : ∀ x ∈ D.removed, ¬ HasTenant x.2 := by simpa using hfind
    exact ⟨fun _ x hx ht => (hR x hx ht).elim, fun _ => follows_of_untenanted hw h hR⟩
  | some x =>
    -- the callback returns at the first removed document with a tenant
    obtain ⟨hx, pre, post, hsplit, hpre⟩ := List.find?_eq_some_iff_append.mp hfind
    replace hx : HasTenant x.2 := by simpa using hx
    replace hpre : ∀ y ∈ pre, ¬ HasTenant y.2 := by simpa using hpre
    have hxmem : x ∈ D.removed := by simp [hsplit]
    rw [follows_of_tenanted hw h hsplit hpre hx]
    constructor
    · rintro ⟨rfl, hA, hM⟩ y hy hty
      have hyx : y = x := by
        rw [hsplit] at hy
        rcases List.mem_append.mp hy with hy | hy
        · exact (hpre y hy hty).elim
        · exact List.mem_singleton.mp hy
      exact ⟨by simp [hsplit, hyx], hA, hM⟩
    · intro hsafe
      obtain ⟨hlast, hA, hM⟩ := hsafe x hxmem hx
      refine ⟨?_, hA, hM⟩
      by_contra hpost
      have hxpost : x ∈ post := by
        rw [hsplit, List.getLast?_append_of_ne_nil _ (List.cons_ne_nil x post)] at hlast
        rw [List.getLast?_cons_of_ne_nil hpost] at hlast
        exact List.mem_of_getLast? hlast
      have hnodup := D.removed_nodup.of_map
      rw [hsplit] at hnodup
      exact (List.nodup_cons.mp (List.nodup_append.mp hnodup).2.1).1 hxpost

end Batch

/-- The two lists follow the collection after every batch exactly when every removed property with
a tenant leaves nothing to do after it in its batch. -/
theorem lists_follow_iff {c : Collection} (h : History c) (hw : History.All @WellFormed h) :
    History.Always listener ⟨[], []⟩ Follows h ↔ History.All @TailSafe h := by
  have hempty : Follows (fun _ => none) ⟨[], []⟩ := by
    refine ⟨lists_nil.congr fun k => ?_, lists_nil.congr fun k => ?_⟩ <;> simp [Collection.ids]
  exact History.always_iff hempty (fun D s hD hs => follows_iff_tailSafe hD hs) h hw

section Instances

theorem wellFormed_cleared {l : List (DocumentId × Fields)} (hl : (l.map Prod.fst).Nodup)
    (hc : ∀ x ∈ l, Complete x.2) : History.All @WellFormed (History.cleared l hl) := by
  have hfill : WellFormed (Difference.fill l hl) :=
    ⟨fun id d hd => hc (id, d) ((ofList_eq_some hl (id, d)).mp hd),
      fun _ hx => absurd hx List.not_mem_nil⟩
  have hclear : WellFormed (Difference.clear l hl) :=
    ⟨fun _ _ hd => (Option.some_ne_none _ hd.symm).elim, fun _ hx => absurd hx List.not_mem_nil⟩
  exact ⟨⟨trivial, hfill⟩, hclear⟩

def vacant : Fields := strings [("address", "A"), ("deadline", "15"), ("rent", "900"),
  ("room", "2"), ("bath", "1"), ("squareFoot", "700")]

def rented : Fields := strings [("address", "A"), ("deadline", "15"), ("rent", "900"),
  ("room", "2"), ("bath", "1"), ("squareFoot", "700"), ("tenantName", "N"), ("tenantID", "T")]

theorem complete_instances : Complete vacant ∧ Complete rented := by
  constructor <;> intro field h <;>
    simp only [propertyFields, List.mem_cons, List.not_mem_nil, or_false] at h <;>
    rcases h with rfl | rfl | rfl | rfl | rfl | rfl <;> simp [vacant, rented]

def firstProperty : DocumentId := ⟨"P", by decide, by decide⟩

def two : List (DocumentId × Fields) := [(firstProperty, rented), (property, vacant)]

theorem two_nodup : (two.map Prod.fst).Nodup := by decide

/-- Two properties go in one batch, the first of them with a tenant: the second stays listed. -/
theorem removed_property_listed :
    History.All @WellFormed (History.cleared two two_nodup) ∧
      ¬ History.Always listener ⟨[], []⟩ Follows (History.cleared two two_nodup) ∧
      ∃ s, History.run listener ⟨[], []⟩ (History.cleared two two_nodup) = some s ∧
        s.properties.map Property.id = ["Q"] := by
  have hcomplete : ∀ x ∈ two, Complete x.2 := by
    simp [two, complete_instances]
  have hrun : ∃ s, History.run listener ⟨[], []⟩ (History.cleared two two_nodup) = some s ∧
      s.properties.map Property.id = ["Q"] := ⟨_, rfl, by decide⟩
  refine ⟨wellFormed_cleared two_nodup hcomplete, ?_, hrun⟩
  rintro ⟨-, s, hs, hfollow⟩
  obtain ⟨s', hs', hids⟩ := hrun
  obtain rfl := Option.some.inj (hs.symm.trans hs')
  have hlisted := (hfollow.properties.2 "Q").mp (by simp [hids])
  simp [Collection.ids] at hlisted

theorem one_property_follows :
    History.Always listener ⟨[], []⟩ Follows
      (History.dropped (firstProperty, rented) [(property, vacant)] two_nodup) := by
  have hfill : WellFormed (Difference.fill two two_nodup) := by
    refine ⟨fun id d hd => ?_, fun _ hx => absurd hx List.not_mem_nil⟩
    have hcomplete : ∀ x ∈ two, Complete x.2 := by simp [two, complete_instances]
    exact hcomplete (id, d) ((ofList_eq_some two_nodup (id, d)).mp hd)
  have hdrop : WellFormed (Difference.drop (firstProperty, rented)
      (List.nodup_cons.mp two_nodup).1) := by
    refine ⟨fun id d hd => ?_, fun _ hx => absurd hx List.not_mem_nil⟩
    have hmem := (ofList_eq_some (l := [(property, vacant)]) (List.nodup_singleton _) (id, d)).mp hd
    obtain ⟨rfl, rfl⟩ := Prod.mk.inj (List.mem_singleton.mp hmem)
    exact complete_instances.1
  have hsafe : TailSafe (Difference.drop (firstProperty, rented)
      (List.nodup_cons.mp two_nodup).1) := by
    intro x hx _
    obtain rfl := List.mem_singleton.mp hx
    exact ⟨rfl, rfl, fun y hy => absurd hy List.not_mem_nil⟩
  exact (lists_follow_iff (History.dropped (firstProperty, rented) [(property, vacant)] two_nodup)
    ⟨⟨trivial, hfill⟩, hdrop⟩).mpr ⟨⟨trivial, fun x hx => absurd hx List.not_mem_nil⟩, hsafe⟩

end Instances
end Zeenoc.LandlordVC
