import Zeenoc.LandlordVC
import Zeenoc.Library.Runs

/-! The loop of `LandlordVC.firebaseCall` change by change, and what a modified change does to the
entries of other properties. -/

namespace Zeenoc.LandlordVC
open Firestore

/-- One pass of the loop over `snap!.documentChanges`; the flag tells whether the loop goes on. -/
def process (c : DocumentChange) (s : Lists) : Option (Lists × Bool) :=
  match c.type with
  | .added => (added c.documentID c.document s).map fun s' => (s', true)
  | .modified => (modified c.documentID c.document s).map fun s' => (s', true)
  | .removed =>
    let properties := s.properties.eraseP fun p => p.id = c.documentID.val
    if ∃ p ∈ s.tenantProperties, p.id = c.documentID.val then
      some (⟨properties, s.tenantProperties.eraseP fun p => p.id = c.documentID.val⟩, false)
    else some ({ s with properties := properties }, true)

theorem firebaseCall_cons (c : DocumentChange) (cs : List DocumentChange) (s : Lists) :
    firebaseCall (c :: cs) s = (process c s).bind fun (s', more) =>
      if more then firebaseCall cs s' else some (s', false) := by
  obtain ⟨type, id, d⟩ := c
  cases type with
  | added =>
    show (added id d s).bind _ = ((added id d s).map _).bind _
    rw [Option.bind_map]
    rfl
  | modified =>
    show (modified id d s).bind _ = ((modified id d s).map _).bind _
    rw [Option.bind_map]
    rfl
  | removed =>
    by_cases htenant : ∃ p ∈ s.tenantProperties, p.id = id.val
    · simp [firebaseCall, process, htenant]
    · simp [firebaseCall, process, htenant]

/-- The listener of one session: the collection as it was last told, the changes of the batch that
are still to come, and the arrays. -/
structure Listening where
  collection : Collection
  rest : List DocumentChange
  lists : Lists

namespace Listening

def loaded : Listening := ⟨fun _ => none, [], ⟨[], []⟩⟩

inductive Event where
  | batch
  | change

/-- The document has the two strings that the branch for modifications casts. -/
def Carries (d : Fields) : Prop :=
  (∃ tenantName, d.getString "tenantName" = some tenantName) ∧
    ∃ tenantID, d.getString "tenantID" = some tenantID

def Carried {old new : Collection} (D : Difference old new) : Prop :=
  ∀ x ∈ D.modified, Carries x.2

inductive Step : Listening → Event → Listening → Prop
  | batch {c : Listening} {new : Collection} (D : Difference c.collection new)
      (hdone : c.rest = []) (hD : Carried D) :
      Step c .batch { c with collection := new, rest := D.changes }
  | change {c : Listening} {x rest s more} (hrest : c.rest = x :: rest)
      (hx : process x c.lists = some (s, more)) :
      Step c .change { c with rest := if more then rest else [], lists := s }

abbrev Reaches : Listening → Prop := Runs.Reaches Step (fun _ _ => True) loaded

theorem Reaches.call {c : Listening} (h : Reaches c) {s : Lists} {b : Bool}
    (hcall : firebaseCall c.rest c.lists = some (s, b)) :
    Reaches { c with rest := [], lists := s } := by
  obtain ⟨collection, rest, lists⟩ := c
  induction rest generalizing lists with
  | nil =>
    obtain ⟨rfl, -⟩ := Prod.mk.inj (Option.some.inj hcall)
    exact h
  | cons x rest ih =>
    rw [firebaseCall_cons] at hcall
    obtain ⟨⟨s₁, more⟩, hx, hcall⟩ := Option.bind_eq_some_iff.mp hcall
    have hstep := Runs.Reaches.step h trivial (.change rfl hx)
    cases more with
    | true => exact ih s₁ hstep hcall
    | false =>
      obtain ⟨rfl, -⟩ := Prod.mk.inj (Option.some.inj hcall)
      exact hstep

theorem reaches_of_history {c : Collection} (h : History c) (hD : History.All @Carried h)
    {s : Lists} (hs : History.run listener ⟨[], []⟩ h = some s) : Reaches ⟨c, [], s⟩ := by
  induction h generalizing s with
  | start =>
    obtain rfl := Option.some.inj hs
    exact .start
  | batch h D ih =>
    obtain ⟨s₀, hs₀, hlast⟩ := Option.bind_eq_some_iff.mp hs
    obtain ⟨⟨s', b⟩, hcall, rfl⟩ := Option.map_eq_some_iff.mp hlast
    have hbatch : Reaches ⟨_, D.changes, s₀⟩ :=
      Runs.Reaches.step (ih hD.1 hs₀) trivial
        (.batch (c := ⟨_, [], s₀⟩) D rfl hD.2)
    exact hbatch.call hcall

theorem Reaches.carried {c : Listening} (h : Reaches c) :
    ∀ x ∈ c.rest, x.type = .modified → Carries x.document := by
  refine Runs.Reaches.invariant
    (I := fun c : Listening => ∀ x ∈ c.rest, x.type = .modified → Carries x.document)
    (fun _ hx => absurd hx List.not_mem_nil) ?_ h
  intro c e c' ih _ hs x hx hmod
  cases hs with
  | batch D hdone hD =>
    have hmem : (x.documentID, x.document) ∈ D.ofType x.type := D.mem_changes hx
    rw [hmod] at hmem
    exact hD _ hmem
  | @change y rest s more hrest hy =>
    apply ih x _ hmod
    rw [hrest]
    cases more with
    | true => exact List.mem_cons_of_mem _ hx
    | false => exact absurd hx List.not_mem_nil

end Listening

section Touched
variable {id : DocumentId}

def Keeps (id : DocumentId) (l l' : List Property) : Prop :=
  ∀ (i : ℕ) (p : Property), l[i]? = some p → p.id ≠ id.val → l'[i]? = some p

structure TouchesOnly (id : DocumentId) (s s' : Lists) : Prop where
  properties : Keeps id s.properties s'.properties
  tenants : Keeps id s.tenantProperties s'.tenantProperties
  appended : ∀ p ∈ s'.tenantProperties.drop s.tenantProperties.length, p.id = id.val

theorem keeps_setTenant (tenantName tenantID : String) (l : List Property) :
    Keeps id l (l.map (setTenant id tenantName tenantID)) := by
  intro i p hp hne
  rw [List.getElem?_map, hp, Option.map_some, setTenant, if_neg hne]

theorem Keeps.append {l l' : List Property} (h : Keeps id l l') (last : List Property) :
    Keeps id l (l' ++ last) := by
  intro i p hp hne
  have hp' := h i p hp hne
  rw [List.getElem?_append_left (List.getElem?_eq_some_iff.mp hp').1, hp']

theorem foldl_curr_first {k : String} {l : List Property} (first : Property)
    (h : ∀ p ∈ l, p.id ≠ k) :
    l.foldl (fun curr p => if p.id = k then p else curr) first = first := by
  induction l generalizing first with
  | nil => rfl
  | cons p l ih =>
    rw [List.foldl_cons, if_neg (h p List.mem_cons_self)]
    exact ih first fun q hq => h q (List.mem_cons_of_mem _ hq)

theorem touchesOnly_self (s : Lists) : TouchesOnly id s s :=
  ⟨fun _ _ hp _ => hp, fun _ _ hp _ => hp, by simp⟩

theorem touchesOnly_listed (tenantName tenantID : String) (s : Lists) :
    TouchesOnly id s ⟨s.properties.map (setTenant id tenantName tenantID),
      s.tenantProperties.map (setTenant id tenantName tenantID)⟩ :=
  ⟨keeps_setTenant _ _ _, keeps_setTenant _ _ _, by simp [List.drop_eq_nil_of_le]⟩

theorem touchesOnly_append_iff (tenantName tenantID : String) (s : Lists) (curr : Property) :
    TouchesOnly id s ⟨s.properties.map (setTenant id tenantName tenantID),
      s.tenantProperties.map (setTenant id tenantName tenantID) ++ [curr]⟩ ↔
      curr.id = id.val := by
  have hdrop : (s.tenantProperties.map (setTenant id tenantName tenantID) ++ [curr]).drop
      s.tenantProperties.length = [curr] := by
    rw [← List.length_map (f := setTenant id tenantName tenantID), List.drop_left]
  constructor
  · intro h
    exact h.appended curr (by rw [hdrop]; exact List.mem_singleton_self curr)
  · intro hcurr
    refine ⟨keeps_setTenant _ _ _, (keeps_setTenant _ _ _).append _, ?_⟩
    rw [hdrop]
    simpa using hcurr

theorem modified_touches_iff {d : Fields} {tenantName tenantID : String} (s : Lists)
    (hname : d.getString "tenantName" = some tenantName)
    (hten : d.getString "tenantID" = some tenantID) :
    (∃ s', modified id d s = some s' ∧ TouchesOnly id s s') ↔
      s.properties ≠ [] ∧
        (tenantName = "N/A" ∨ ∃ p ∈ s.properties ++ s.tenantProperties, p.id = id.val) := by
  cases hfirst : s.properties with
  | nil => simp [modified, hname, hten, hfirst]
  | cons first later =>
    rw [and_iff_right (List.cons_ne_nil first later), ← hfirst]
    have hhead : s.properties.head? = some first := by rw [hfirst]; rfl
    by_cases hplaceholder : tenantName = "N/A"
    · have hrun : modified id d s = some s := by
        simp [modified, hname, hten, hhead, hplaceholder]
      exact iff_of_true ⟨s, hrun, touchesOnly_self s⟩ (.inl hplaceholder)
    set properties := s.properties.map (setTenant id tenantName tenantID) with hprops
    set curr := properties.foldl (fun curr p => if p.id = id.val then p else curr) first with hcurr
    by_cases hex : ∃ p ∈ s.tenantProperties, p.id = id.val
    · have hrun : modified id d s =
          some ⟨properties, s.tenantProperties.map (setTenant id tenantName tenantID)⟩ := by
        simp only [modified, hname, hten, hhead, Option.bind_eq_bind, Option.bind_some,
          if_neg hplaceholder, if_pos hex, ← hprops]
      obtain ⟨p, hp, hpid⟩ := hex
      exact iff_of_true ⟨_, hrun, touchesOnly_listed ..⟩
        (.inr ⟨p, List.mem_append_right _ hp, hpid⟩)
    · -- `curr` is appended, whatever the search has left in it
      have hrun : modified id d s =
          some ⟨properties,
            s.tenantProperties.map (setTenant id tenantName tenantID) ++ [curr]⟩ := by
        simp only [modified, hname, hten, hhead, Option.bind_eq_bind, Option.bind_some,
          if_neg hplaceholder, if_neg hex, ← hprops, ← hcurr]
      -- it has the id of the document just when `properties` lists it
      have hids : (∃ p ∈ properties, p.id = id.val) ↔ ∃ p ∈ s.properties, p.id = id.val := by
        rw [hprops]
        simp [setTenant_id]
      have hcurrid : curr.id = id.val ↔ ∃ p ∈ s.properties, p.id = id.val := by
        constructor
        · intro h
          by_contra hnot
          have hnone : ∀ p ∈ properties, p.id ≠ id.val :=
            fun p hp he => hnot (hids.mp ⟨p, hp, he⟩)
          rw [hcurr, foldl_curr_first first hnone] at h
          exact hnot ⟨first, by simp [hfirst], h⟩
        · intro h
          exact foldl_curr_id _ _ (.inr (hids.mpr h))
      have hlisted : (∃ p ∈ s.properties ++ s.tenantProperties, p.id = id.val) ↔
          ∃ p ∈ s.properties, p.id = id.val := by
        constructor
        · rintro ⟨p, hp, hpid⟩
          rcases List.mem_append.mp hp with hp | hp
          · exact ⟨p, hp, hpid⟩
          · exact (hex ⟨p, hp, hpid⟩).elim
        · rintro ⟨p, hp, hpid⟩
          exact ⟨p, List.mem_append_left _ hp, hpid⟩
      rw [hrun, hlisted, or_iff_right hplaceholder, ← hcurrid]
      constructor
      · rintro ⟨s', hs', htouch⟩
        obtain rfl := Option.some.inj hs'
        exact (touchesOnly_append_iff ..).mp htouch
      · intro h
        exact ⟨_, rfl, (touchesOnly_append_iff ..).mpr h⟩

end Touched

namespace Listening

/-- In every state of the loop, the modified change that comes next touches only its own property
exactly when there is a first property, and the changed one is listed or nameless. -/
theorem modified_touchesOnly_iff {c : Listening} (h : Reaches c) {x : DocumentId × Fields}
    {rest : List DocumentChange} (hnext : c.rest = change .modified x :: rest) :
    (∃ s, process (change .modified x) c.lists = some (s, true) ∧ TouchesOnly x.1 c.lists s) ↔
      c.lists.properties ≠ [] ∧ (x.2.getString "tenantName" = some "N/A" ∨
        ∃ p ∈ c.lists.properties ++ c.lists.tenantProperties, p.id = x.1.val) := by
  obtain ⟨⟨tenantName, hname⟩, tenantID, hten⟩ :=
    h.carried (change .modified x) (by rw [hnext]; exact List.mem_cons_self) rfl
  have hprocess : ∀ s, process (change .modified x) c.lists = some (s, true) ↔
      modified x.1 x.2 c.lists = some s := by
    intro s
    show (modified x.1 x.2 c.lists).map (fun s' => (s', true)) = some (s, true) ↔ _
    simp
  replace hname : x.2.getString "tenantName" = some tenantName := hname
  rw [hname, Option.some.injEq, ← modified_touches_iff c.lists hname hten]
  simp only [hprocess]

section Instances

section Lost
variable (l : List (DocumentId × Fields)) (hl : (((firstProperty, rented) :: l).map Prod.fst).Nodup)
  (hproperty : property ∉ l.map Prod.fst)

def replaced : History (Collection.ofList ((property, vacant) :: l)) :=
  (History.start.batch (Difference.fill _ hl)).batch
    (Difference.swap (by decide) (List.nodup_cons.mp hl).1 hproperty)

theorem carried_replaced : History.All @Carried (replaced l hl hproperty) :=
  ⟨⟨trivial, fun _ hx => absurd hx List.not_mem_nil⟩, fun _ hx => absurd hx List.not_mem_nil⟩

end Lost

theorem vacant_ne_rented : vacant ≠ rented := by
  intro h
  exact absurd (congrFun h "tenantName") (by decide)

theorem reaches_rented {l : List (DocumentId × Fields)} {s : Lists}
    (h : Reaches ⟨Collection.ofList ((property, vacant) :: l), [], s⟩) :
    Reaches ⟨Collection.ofList ((property, rented) :: l),
      [change .modified (property, rented)], s⟩ := by
  let D : Difference (Collection.ofList ((property, vacant) :: l))
      (Collection.ofList ((property, rented) :: l)) := Difference.rewrite vacant_ne_rented
  have hcarried : Carried D := by
    intro x hx
    obtain rfl := List.mem_singleton.mp hx
    simp [Carries, rented]
  exact Runs.Reaches.step h trivial (.batch (c := ⟨_, [], s⟩) D rfl hcarried)

/-- The property that came in that batch is not listed: when it is rented, the entry of another one
is appended, or the app traps for want of a first one. -/
theorem modified_other_property :
    (∃ c, Reaches c ∧ c.rest = [change .modified (property, rented)] ∧
      (∃ s, process (change .modified (property, rented)) c.lists = some (s, true) ∧
        s.tenantProperties.map Property.id = ["N"]) ∧
      ¬ ∃ s, process (change .modified (property, rented)) c.lists = some (s, true) ∧
        TouchesOnly property c.lists s) ∧
    ∃ c, Reaches c ∧ c.rest = [change .modified (property, rented)] ∧
      process (change .modified (property, rented)) c.lists = none := by
  have hone := reaches_of_history _ (carried_replaced [(newId, vacant)] (by decide) (by decide)) rfl
  have hnone := reaches_of_history _ (carried_replaced [] (by decide) (by decide)) rfl
  refine ⟨⟨_, reaches_rented hone, rfl, ⟨_, rfl, by decide⟩, ?_⟩, _, reaches_rented hnone, rfl, rfl⟩
  rintro ⟨s, hs, htouch⟩
  obtain ⟨rfl, -⟩ := Prod.mk.inj (Option.some.inj hs)
  have happended := htouch.appended _ List.mem_cons_self
  exact absurd happended (by decide)

theorem listed_property_touched :
    ∃ c, Reaches c ∧ c.rest = [change .modified (property, rented)] ∧
      ∃ s, process (change .modified (property, rented)) c.lists = some (s, true) ∧
        TouchesOnly property c.lists s := by
  have hfilled : Reaches ⟨Collection.ofList [(property, vacant)], [], _⟩ :=
    reaches_of_history
      (History.start.batch (Difference.fill [(property, vacant)] (List.nodup_singleton _)))
      ⟨trivial, fun _ hx => absurd hx List.not_mem_nil⟩ rfl
  exact ⟨_, reaches_rented hfilled, rfl,
    (modified_touchesOnly_iff (reaches_rented hfilled) rfl).mpr
      ⟨List.cons_ne_nil _ _, .inr ⟨_, List.mem_cons_self, rfl⟩⟩⟩

end Instances
end Listening
end Zeenoc.LandlordVC
