import Zeenoc.LandlordVC
import Zeenoc.PropertyDocuments

/-! The versions of one property document, and what `LandlordVC` shows of it: entries that followed
every version, and entries that a new listener makes from the last one. -/

namespace Zeenoc.LandlordVC
open Firestore

def nextVersion (d : Fields) (r : Request) : Fields := (tenantFields r).merge (some d)

def version (d : Fields) (rs : List Request) : Fields := rs.foldl nextVersion d

section Loads
variable (id : DocumentId)

/-- The modified changes for the versions after `d`, each in a batch of its own. -/
def follow : Fields → List Request → Lists → Option Lists
  | _, [], s => some s
  | d, r :: rs, s =>
    (listener [change .modified (id, nextVersion d r)] s).bind (follow (nextVersion d r) rs)

def incremental (d : Fields) (rs : List Request) (s : Lists) : Option Lists :=
  (listener [change .added (id, d)] s).bind (follow id d rs)

def fresh (d : Fields) (rs : List Request) (s : Lists) : Option Lists :=
  listener [change .added (id, version d rs)] s

def entries (l : List Property) : List Property := l.filter fun p => p.id = id.val

structure Shown (p : Property) (listed : Bool) (s : Lists) : Prop where
  id_eq : p.id = id.val
  properties : entries id s.properties = [p]
  tenants : entries id s.tenantProperties = if listed then [p] else []

def rename (p : Property) (r : Request) : Property :=
  if r.tenantName = "N/A" then p
  else { p with tenantName := r.tenantName, tenantID := r.tenantID }

def named (r : Request) : Bool := r.tenantName ≠ "N/A"

variable {id}

theorem listener_added (d : Fields) (s : Lists) :
    listener [change .added (id, d)] s = added id d s := by
  show ((added id d s).bind fun s' => some (s', true)).map Prod.fst = _
  cases added id d s <;> rfl

theorem listener_modified (d : Fields) (s : Lists) :
    listener [change .modified (id, d)] s = modified id d s := by
  show ((modified id d s).bind fun s' => some (s', true)).map Prod.fst = _
  cases modified id d s <;> rfl

theorem entries_append (l l' : List Property) :
    entries id (l ++ l') = entries id l ++ entries id l' := List.filter_append ..

theorem entries_singleton {p : Property} (hp : p.id = id.val) : entries id [p] = [p] := by
  simp [entries, hp]

theorem entries_setTenant (tenantName tenantID : String) (l : List Property) :
    entries id (l.map (setTenant id tenantName tenantID)) =
      (entries id l).map (setTenant id tenantName tenantID) := by
  unfold entries
  rw [List.filter_map]
  congr 2
  funext p
  show decide ((setTenant id tenantName tenantID p).id = id.val) = _
  rw [setTenant_id]

theorem exists_entry_iff (l : List Property) : (∃ p ∈ l, p.id = id.val) ↔ entries id l ≠ [] := by
  simp [entries, List.filter_eq_nil_iff]

theorem foldl_curr_entries (l : List Property) (first : Property) :
    l.foldl (fun curr p => if p.id = id.val then p else curr) first =
      (entries id l).getLast?.getD first := by
  induction l generalizing first with
  | nil => rfl
  | cons p l ih =>
    rw [List.foldl_cons, ih]
    by_cases hp : p.id = id.val
    · have hcons : entries id (p :: l) = p :: entries id l := by simp [entries, hp]
      rw [if_pos hp, hcons, List.getLast?_cons]
      rfl
    · have hcons : entries id (p :: l) = entries id l := by simp [entries, hp]
      rw [if_neg hp, hcons]

theorem Shown.modified {p : Property} {listed : Bool} {s : Lists} (h : Shown id p listed s)
    (d : Fields) (r : Request) :
    ∃ s', listener [change .modified (id, nextVersion d r)] s = some s' ∧
      Shown id (rename p r) (listed || named r) s' := by
  have hname : (nextVersion d r).getString "tenantName" = some r.tenantName :=
    merge_of_some (by simp [tenantFields]) _
  have hten : (nextVersion d r).getString "tenantID" = some r.tenantID :=
    merge_of_some (by simp [tenantFields]) _
  obtain ⟨first, hfirst⟩ : ∃ first, s.properties.head? = some first := by
    cases hs : s.properties with
    | nil => simpa [hs, entries] using h.properties
    | cons first rest => exact ⟨first, rfl⟩
  rw [listener_modified]
  by_cases hplaceholder : r.tenantName = "N/A"
  · refine ⟨s, by simp [LandlordVC.modified, hname, hten, hfirst, hplaceholder], ?_⟩
    have hnamed : named r = false := by simp [named, hplaceholder]
    rwa [rename, if_pos hplaceholder, hnamed, Bool.or_false]
  have hnamed : named r = true := by simp [named, hplaceholder]
  have hset : setTenant id r.tenantName r.tenantID p = rename p r := by
    rw [setTenant, if_pos h.id_eq, rename, if_neg hplaceholder]
  have hid : (rename p r).id = id.val := by rw [← hset, setTenant_id, h.id_eq]
  have hproperties : entries id (s.properties.map (setTenant id r.tenantName r.tenantID)) =
      [rename p r] := by
    rw [entries_setTenant, h.properties, List.map_singleton, hset]
  -- the loop ends with the renamed property in `curr`
  have hcurr : (s.properties.map (setTenant id r.tenantName r.tenantID)).foldl
      (fun curr p => if p.id = id.val then p else curr) first = rename p r := by
    rw [foldl_curr_entries, hproperties]
    rfl
  have htenants : entries id (s.tenantProperties.map (setTenant id r.tenantName r.tenantID)) =
      if listed then [rename p r] else [] := by
    rw [entries_setTenant, h.tenants]
    cases listed with
    | true => rw [if_pos rfl, if_pos rfl, List.map_singleton, hset]
    | false => rfl
  have hexists : (∃ q ∈ s.tenantProperties, q.id = id.val) ↔ listed = true := by
    rw [exists_entry_iff, h.tenants]
    cases listed <;> simp
  refine ⟨⟨s.properties.map (setTenant id r.tenantName r.tenantID),
    if ∃ q ∈ s.tenantProperties, q.id = id.val then
      s.tenantProperties.map (setTenant id r.tenantName r.tenantID)
    else s.tenantProperties.map (setTenant id r.tenantName r.tenantID) ++ [rename p r]⟩,
    ?_, hid, hproperties, ?_⟩
  · simp only [LandlordVC.modified, hname, hten, hfirst, Option.bind_eq_bind, Option.bind_some,
      if_neg hplaceholder, hcurr]
  · rw [hnamed, Bool.or_true, if_pos rfl]
    simp only [hexists]
    cases listed with
    | true => rw [if_pos rfl, htenants, if_pos rfl]
    | false => rw [if_neg Bool.false_ne_true, entries_append, htenants, entries_singleton hid]; rfl

theorem follow_shown (rs : List Request) {p : Property} {listed : Bool} {s : Lists}
    (h : Shown id p listed s) (d : Fields) :
    ∃ s', follow id d rs s = some s' ∧
      Shown id (rs.foldl rename p) (listed || rs.any named) s' := by
  induction rs generalizing p listed s d with
  | nil => exact ⟨s, rfl, by rwa [List.any_nil, Bool.or_false]⟩
  | cons r rs ih =>
    obtain ⟨s₁, hs₁, h₁⟩ := h.modified d r
    obtain ⟨s', hs', h'⟩ := ih h₁ (nextVersion d r)
    refine ⟨s', ?_, ?_⟩
    · show (listener [change .modified (id, nextVersion d r)] s).bind _ = _
      rw [hs₁, Option.bind_some, hs']
    · rwa [List.any_cons, ← Bool.or_assoc]

def Unlisted (id : DocumentId) (s : Lists) : Prop :=
  entries id s.properties = [] ∧ entries id s.tenantProperties = []

theorem Unlisted.added {s : Lists} (h : Unlisted id s) {d : Fields} {p : Property}
    (hp : Property.ofDocument id d = some p) :
    ∃ s', listener [change .added (id, d)] s = some s' ∧
      Shown id p (d.getString "tenantName").isSome s' := by
  have hid : p.id = id.val := Property.ofDocument_id hp
  rw [listener_added, LandlordVC.added, hp]
  refine ⟨_, rfl, hid, ?_, ?_⟩
  · show entries id (s.properties ++ [p]) = [p]
    rw [entries_append, h.1, entries_singleton hid, List.nil_append]
  · cases (d.getString "tenantName").isSome with
    | true =>
      show entries id (s.tenantProperties ++ [p]) = [p]
      rw [entries_append, h.2, entries_singleton hid, List.nil_append]
    | false => exact h.2

def registeredEntry (id : DocumentId) (form : PropertyForm) : Property where
  id := id.val
  tenantName := "N/A"
  tenantID := "N/A"
  address := form.address
  deadline := "03/" ++ form.deadline ++ "/2021"
  rent := "$" ++ form.rent
  room := form.room ++ " bds"
  bath := form.bath ++ " ba"
  squareFoot := form.squareFoot ++ " sqft"

theorem ofDocument_registered (id : DocumentId) (form : PropertyForm) :
    Property.ofDocument id (strings form.data) = some (registeredEntry id form) := by
  simp [Property.ofDocument, PropertyForm.data, registeredEntry]

theorem ofDocument_nextVersion {d : Fields} {p : Property} (h : Property.ofDocument id d = some p)
    (r : Request) :
    Property.ofDocument id (nextVersion d r) = some { p with tenantName := r.tenantName } := by
  have hname : (nextVersion d r).getString "tenantName" = some r.tenantName :=
    merge_of_some (by simp [tenantFields]) _
  have hkept : ∀ field ∈ propertyFields, (nextVersion d r).getString field = d.getString field :=
    fun field hf => merge_of_none (tenantFields_other r hf) d
  have haddress := hkept "address" (by simp [propertyFields])
  have hdeadline := hkept "deadline" (by simp [propertyFields])
  have hrent := hkept "rent" (by simp [propertyFields])
  have hroom := hkept "room" (by simp [propertyFields])
  have hbath := hkept "bath" (by simp [propertyFields])
  have hsquareFoot := hkept "squareFoot" (by simp [propertyFields])
  simp only [Property.ofDocument, Option.bind_eq_bind, Option.bind_eq_some_iff,
    Option.some.injEq] at h
  obtain ⟨a, ha, dl, hdl, re, hre, ro, hro, b, hb, s, hs, rfl⟩ := h
  simp [Property.ofDocument, hname, haddress, hdeadline, hrent, hroom, hbath, hsquareFoot, ha, hdl,
    hre, hro, hb, hs]

theorem version_concat (d : Fields) (rs : List Request) (r : Request) :
    version d (rs ++ [r]) = nextVersion (version d rs) r := by
  simp [version]

def lastName (rs : List Request) : String := (rs.getLast?.map Request.tenantName).getD "N/A"

theorem ofDocument_version (id : DocumentId) (form : PropertyForm) (rs : List Request) :
    Property.ofDocument id (version (strings form.data) rs) =
      some { registeredEntry id form with tenantName := lastName rs } := by
  induction rs using List.reverseRecOn with
  | nil => exact ofDocument_registered id form
  | append_singleton rs r ih =>
    have hlast : lastName (rs ++ [r]) = r.tenantName := by simp [lastName]
    rw [version_concat, ofDocument_nextVersion ih r, hlast]

theorem tenantName_version (form : PropertyForm) (rs : List Request) :
    ((version (strings form.data) rs).getString "tenantName").isSome = !rs.isEmpty := by
  induction rs using List.reverseRecOn with
  | nil => simp [version, PropertyForm.data]
  | append_singleton rs r ih =>
    have hname : (nextVersion (version (strings form.data) rs) r).getString "tenantName" =
        some r.tenantName := merge_of_some (by simp [tenantFields]) _
    rw [version_concat, hname]
    simp

theorem foldl_rename (rs : List Request) (p : Property) :
    ∃ n t, rs.foldl rename p = { p with tenantName := n, tenantID := t } := by
  induction rs generalizing p with
  | nil => exact ⟨p.tenantName, p.tenantID, rfl⟩
  | cons r rs ih =>
    obtain ⟨n, t, hn⟩ := ih (rename p r)
    refine ⟨n, t, ?_⟩
    rw [List.foldl_cons, hn, rename]
    split <;> rfl

theorem foldl_rename_named (rs : List Request) (p : Property)
    (h : p.tenantName ≠ "N/A" ∨ rs.any named = true) : (rs.foldl rename p).tenantName ≠ "N/A" := by
  induction rs generalizing p with
  | nil => simpa using h
  | cons r rs ih =>
    rw [List.foldl_cons]
    apply ih
    by_cases hr : r.tenantName = "N/A"
    · have hnamed : named r = false := by simp [named, hr]
      rwa [rename, if_pos hr, ← Bool.false_or (rs.any named), ← hnamed, ← List.any_cons]
    · rw [rename, if_neg hr]
      exact .inl hr

end Loads

/-- Both ways to load the document succeed and leave the same entries of it in the two arrays. -/
def LoadsAgree (id : DocumentId) (form : PropertyForm) (rs : List Request) (s s₀ : Lists) : Prop :=
  ∃ s₁ s₂, incremental id (strings form.data) rs s = some s₁ ∧
    fresh id (strings form.data) rs s₀ = some s₂ ∧
    entries id s₁.properties = entries id s₂.properties ∧
    entries id s₁.tenantProperties = entries id s₂.tenantProperties

theorem Shown.agree_iff {id : DocumentId} {p q : Property} {b c : Bool} {s s' : Lists}
    (h : Shown id p b s) (h' : Shown id q c s') :
    (entries id s.properties = entries id s'.properties ∧
      entries id s.tenantProperties = entries id s'.tenantProperties) ↔ p = q ∧ b = c := by
  rw [h.properties, h'.properties, h.tenants, h'.tenants]
  constructor
  · rintro ⟨hp, ht⟩
    refine ⟨List.singleton_inj.mp hp, ?_⟩
    cases b <;> cases c <;> simp_all
  · rintro ⟨rfl, rfl⟩
    exact ⟨rfl, rfl⟩

section Agreement
variable {id : DocumentId} {s s₀ : Lists}

theorem incremental_shown (form : PropertyForm) (rs : List Request) (h : Unlisted id s) :
    ∃ s₁, incremental id (strings form.data) rs s = some s₁ ∧
      Shown id (rs.foldl rename (registeredEntry id form)) (rs.any named) s₁ := by
  obtain ⟨s', hs', hshown⟩ := h.added (ofDocument_registered id form)
  obtain ⟨s₁, hs₁, h₁⟩ := follow_shown rs hshown (strings form.data)
  have hunnamed : ((strings form.data).getString "tenantName").isSome = false :=
    tenantName_version form []
  refine ⟨s₁, ?_, ?_⟩
  · rw [incremental, hs', Option.bind_some, hs₁]
  · rwa [hunnamed, Bool.false_or] at h₁

theorem fresh_shown (form : PropertyForm) (rs : List Request) (h : Unlisted id s) :
    ∃ s₂, fresh id (strings form.data) rs s = some s₂ ∧
      Shown id { registeredEntry id form with tenantName := lastName rs } (!rs.isEmpty) s₂ := by
  obtain ⟨s₂, hs₂, h₂⟩ := h.added (ofDocument_version id form rs)
  rw [tenantName_version] at h₂
  exact ⟨s₂, hs₂, h₂⟩

/-- The two entries are the same: the condition is on the last request only. -/
theorem renamed_iff (id : DocumentId) (form : PropertyForm) (rs : List Request) :
    (rs.foldl rename (registeredEntry id form) =
        { registeredEntry id form with tenantName := lastName rs } ∧
      rs.any named = !rs.isEmpty) ↔
      rs = [] ∨ ∃ r, rs.getLast? = some r ∧ r.tenantName ≠ "N/A" ∧ r.tenantID = "N/A" := by
  rcases List.eq_nil_or_concat rs with rfl | ⟨init, r, hrs⟩
  · exact ⟨fun _ => .inl rfl, fun _ => ⟨rfl, rfl⟩⟩
  rw [List.concat_eq_append] at hrs
  have hlast : rs.getLast? = some r := by rw [hrs, List.getLast?_concat]
  have hname : lastName rs = r.tenantName := by simp [lastName, hlast]
  have hfold : rs.foldl rename (registeredEntry id form) =
      rename (init.foldl rename (registeredEntry id form)) r := by
    rw [hrs, List.foldl_append]
    rfl
  have hempty : (!rs.isEmpty) = true := by simp [hrs]
  rw [hname, hempty]
  constructor
  · -- only the last acceptance counts: an earlier one is overwritten
    rintro ⟨hsame, hany⟩
    have hr : r.tenantName ≠ "N/A" := by
      have hne := foldl_rename_named rs (registeredEntry id form) (.inr hany)
      rwa [hsame] at hne
    rw [hfold, rename, if_neg hr] at hsame
    exact .inr ⟨r, hlast, hr, congrArg Property.tenantID hsame⟩
  · rintro (hnil | ⟨r', hr', hne, hten⟩)
    · simp [hnil] at hlast
    obtain rfl := Option.some.inj (hlast.symm.trans hr')
    obtain ⟨n, t, hn⟩ := foldl_rename init (registeredEntry id form)
    refine ⟨?_, ?_⟩
    · rw [hfold, rename, if_neg hne, hn, hten]
      rfl
    · simp [hrs, named, hne]

theorem loads_agree_iff (form : PropertyForm) (rs : List Request) (h : Unlisted id s)
    (h₀ : Unlisted id s₀) :
    LoadsAgree id form rs s s₀ ↔
      rs = [] ∨ ∃ r, rs.getLast? = some r ∧ r.tenantName ≠ "N/A" ∧ r.tenantID = "N/A" := by
  obtain ⟨s₁, hs₁, h₁⟩ := incremental_shown form rs h
  obtain ⟨s₂, hs₂, h₂⟩ := fresh_shown form rs h₀
  rw [← renamed_iff id form rs, ← h₁.agree_iff h₂]
  constructor
  · rintro ⟨t₁, t₂, ht₁, ht₂, hsame⟩
    obtain rfl := Option.some.inj (hs₁.symm.trans ht₁)
    obtain rfl := Option.some.inj (hs₂.symm.trans ht₂)
    exact hsame
  · exact fun hsame => ⟨s₁, s₂, hs₁, hs₂, hsame⟩

end Agreement

theorem document_versions {w : World} (h : World.Reaches AcceptsExisting w) :
    ∀ σ ∈ w.store :: w.past, ∀ L q d, σ ["users", L, "properties", q] = some d →
      ∃ (form : PropertyForm) (rs : List Request), d = version (strings form.data) rs ∧
        ∀ r ∈ rs, r.tenantID ≠ "N/A" := by
  refine World.Reaches.store_invariant (I := fun σ => ∀ L q d,
    σ ["users", L, "properties", q] = some d → ∃ (form : PropertyForm) (rs : List Request),
      d = version (strings form.data) rs ∧ ∀ r ∈ rs, r.tenantID ≠ "N/A")
    (fun _ _ d hd => (Option.some_ne_none d hd.symm).elim) ?_ h
  intro v ev σ' hc _ hi he L q d hd
  rcases he.at_property ⟨L, q, [], rfl⟩ with hsame | ⟨L', a, form, -, hp, rfl⟩ |
    ⟨L', T, r, rfl, hT, hP, hacc⟩ | ⟨L', id, -, -, hdel⟩
  · exact hi L q d (hsame ▸ hd)
  · rw [hp] at hd
    obtain rfl := Option.some.inj ((registered_own ..).symm.trans hd)
    exact ⟨form, [], rfl, fun _ hr => absurd hr List.not_mem_nil⟩
  · obtain ⟨before, hbefore⟩ := Option.ne_none_iff_exists'.mp (hc _ hP)
    rw [hbefore] at hacc
    obtain rfl := Option.some.inj (hacc.symm.trans hd)
    obtain ⟨form, rs, rfl, hrs⟩ := hi L q before hbefore
    refine ⟨form, rs ++ [r], (version_concat ..).symm, fun r' hr' => ?_⟩
    rcases List.mem_append.mp hr' with hr' | hr'
    · exact hrs r' hr'
    · obtain rfl := List.mem_singleton.mp hr'
      rw [hT]
      -- an id has no slash
      exact fun hslash => T.noSlash (hslash ▸ by decide)
  · rw [hdel] at hd
    cases hd

section Instances

def otherEntry : Property :=
  ⟨"P", "N", "T", "A", "03/15/2021", "$900", "2 bds", "1 ba", "700 sqft"⟩

/-- With another property in the arrays, the loads agree for a property that was registered, and no
longer once a tenant of it is accepted. -/
theorem registered_loads_agree :
    LoadsAgree property listing [] ⟨[otherEntry], [otherEntry]⟩ ⟨[otherEntry], []⟩ ∧
      ¬ LoadsAgree property listing [tenantRequest] ⟨[otherEntry], [otherEntry]⟩
        ⟨[otherEntry], []⟩ := by
  have hlisted : Unlisted property ⟨[otherEntry], [otherEntry]⟩ := ⟨by decide, by decide⟩
  have hvacant : Unlisted property ⟨[otherEntry], []⟩ := ⟨by decide, rfl⟩
  refine ⟨(loads_agree_iff listing [] hlisted hvacant).mpr (.inl rfl), fun hagree => ?_⟩
  rcases (loads_agree_iff listing [tenantRequest] hlisted hvacant).mp hagree with
    hnil | ⟨r, hr, -, hten⟩
  · cases hnil
  · obtain rfl := Option.some.inj hr
    exact absurd hten (by decide)

/-- After an acceptance the landlord who stays has the tenant's id, the one who logs in again has
the placeholder. -/
theorem accepted_loads_differ :
    (∃ w, World.Reaches AcceptsExisting w ∧ w.store ["users", "L", "properties", "Q"] =
      some (version (strings listing.data) [tenantRequest])) ∧
    ¬ LoadsAgree property listing [tenantRequest] ⟨[], []⟩ ⟨[], []⟩ ∧
    (incremental property (strings listing.data) [tenantRequest] ⟨[], []⟩).map
      (fun s => s.properties.map Property.tenantID) = some ["T"] ∧
    (fresh property (strings listing.data) [tenantRequest] ⟨[], []⟩).map
      (fun s => s.properties.map Property.tenantID) = some ["N/A"] := by
  refine ⟨reaches_accepted, ?_, by decide, by decide⟩
  rintro ⟨s₁, s₂, hs₁, hs₂, hsame, -⟩
  obtain rfl := Option.some.inj hs₁
  obtain rfl := Option.some.inj hs₂
  exact absurd hsame (by decide)

end Instances

end Zeenoc.LandlordVC
