import Zeenoc.Firestore.DocumentSet

/-! Queries: what they match and how they order it (`query.cc`, `order_by.cc`). The comparison of
field values, the filters and the bounds are parameters. -/

namespace Firestore
variable {V : Type}

inductive Direction where
  | ascending
  | descending
  deriving DecidableEq

def Direction.applyTo : Direction → Ordering → Ordering
  | .ascending, result => result
  | .descending, result => result.swap

/-- A field that documents are ordered by: `FieldValue::CompareTo` on it, and whether a document
has it. -/
structure OrderField (V : Type) where
  compareTo : V → V → Ordering
  trans : Std.TransCmp compareTo
  present : V → Bool

def compareField : Option (OrderField V) → DocumentKey × V → DocumentKey × V → Ordering
  | none, lhs, rhs => compare lhs.1 rhs.1
  | some field, lhs, rhs => field.compareTo lhs.2 rhs.2

instance transCmp_compareField (field : Option (OrderField V)) :
    Std.TransCmp (compareField field) := by
  cases field with
  | none => exact SortedList.transCmp_comap compare Prod.fst
  | some field =>
    have := field.trans
    exact SortedList.transCmp_comap field.compareTo Prod.snd

/-- Without a field it is the order by key, `FieldPath::KeyFieldPath()`. -/
structure OrderBy (V : Type) where
  field : Option (OrderField V)
  direction : Direction

namespace OrderBy

def compare (o : OrderBy V) (lhs rhs : DocumentKey × V) : Ordering :=
  o.direction.applyTo (compareField o.field lhs rhs)

def isKey (o : OrderBy V) : Bool := o.field.isNone

instance transCmp_compare (o : OrderBy V) : Std.TransCmp o.compare := by
  obtain ⟨field, direction⟩ := o
  cases direction with
  | ascending => exact transCmp_compareField field
  | descending =>
    have hswap : OrderBy.compare ⟨field, .descending⟩ = fun a b => compareField field b a := by
      funext a b
      exact (@Std.OrientedCmp.eq_swap _ (compareField field)).symm
    rw [hswap]
    exact Std.TransCmp.opposite

theorem key_eq {o : OrderBy V} (ho : o.isKey) {a b : DocumentKey × V}
    (h : o.compare a b = .eq) : a.1 = b.1 := by
  obtain ⟨field, direction⟩ := o
  obtain rfl : field = none := by simpa [isKey] using ho
  have heq : Ord.compare a.1 b.1 = .eq := by
    cases direction with
    | ascending => exact h
    | descending => simpa [compare, Direction.applyTo, compareField] using h
  exact Std.LawfulEqCmp.eq_of_compare heq

end OrderBy

def compareBy : List (OrderBy V) → DocumentKey × V → DocumentKey × V → Ordering
  | [] => fun _ _ => .eq
  | o :: orderBys => compareLex o.compare (compareBy orderBys)

instance transCmp_compareBy (orderBys : List (OrderBy V)) : Std.TransCmp (compareBy orderBys) := by
  induction orderBys with
  | nil => exact { eq_swap := rfl, isLE_trans := fun _ _ => rfl }
  | cons o orderBys ih => exact inferInstanceAs (Std.TransCmp (compareLex _ _))

theorem compareBy_eq {orderBys : List (OrderBy V)} {a b : DocumentKey × V}
    (h : compareBy orderBys a b = .eq) : ∀ o ∈ orderBys, o.compare a b = .eq := by
  induction orderBys with
  | nil => simp
  | cons o orderBys ih =>
    obtain ⟨ho, hrest⟩ := Ordering.then_eq_eq.mp h
    exact List.forall_mem_cons.mpr ⟨ho, ih hrest⟩

inductive LimitType where
  | none
  | first
  | last
  deriving DecidableEq

structure Filter (V : Type) where
  matchesDocument : DocumentKey → V → Bool
  inequality : Option (Option (OrderField V))

/-- The bounds stand for `Bound::SortsBeforeDocument` under the orders of the query. -/
structure Query (V : Type) where
  path : ResourcePath
  collectionGroup : Option String
  filters : List (Filter V)
  explicitOrderBys : List (OrderBy V)
  limitType : LimitType
  limit : ℕ
  startAt : Option (DocumentKey → V → Bool)
  endAt : Option (DocumentKey → V → Bool)

namespace Query
variable (q : Query V)

def inequalityFilterField : Option (Option (OrderField V)) :=
  q.filters.findSome? Filter.inequality

/-- The direction of the implicit order by key is that of the last explicit order. -/
def lastDirection : Direction :=
  match q.explicitOrderBys.getLast? with
  | none => .ascending
  | some o => o.direction

def orderBys : List (OrderBy V) :=
  match q.inequalityFilterField, q.explicitOrderBys with
  | some none, [] => [⟨none, .ascending⟩]
  | some (some field), [] => [⟨some field, .ascending⟩, ⟨none, .ascending⟩]
  | _, explicit =>
    if explicit.any OrderBy.isKey then explicit else explicit ++ [⟨none, q.lastDirection⟩]

/-- The `HARD_ASSERT` of `Query::Comparator`. -/
theorem exists_key_ordering : ∃ o ∈ q.orderBys, o.isKey := by
  unfold orderBys
  split
  · exact ⟨_, List.mem_singleton_self _, rfl⟩
  · exact ⟨_, List.mem_cons_of_mem _ (List.mem_singleton_self _), rfl⟩
  · split_ifs with h
    · exact List.any_eq_true.mp h
    · exact ⟨_, List.mem_append_right _ (List.mem_singleton_self _), rfl⟩

def comparator : DocumentComparator V where
  order := compareBy q.orderBys
  trans := transCmp_compareBy q.orderBys
  key_eq h := by
    obtain ⟨o, ho, hkey⟩ := q.exists_key_ordering
    exact OrderBy.key_eq hkey (compareBy_eq h o ho)

def matchesPathAndCollectionGroup (d : Document V) : Bool :=
  match q.collectionGroup with
  | some collectionId => d.key.hasCollectionId collectionId && q.path.isPrefixOf d.key.path
  | none =>
    if q.path.length % 2 = 0 then q.path = d.key.path
    else q.path.length + 1 = d.key.path.length && q.path.isPrefixOf d.key.path

def matchesOrderBy (d : Document V) : Bool :=
  q.explicitOrderBys.all fun o => match o.field with
    | none => true
    | some field => field.present d.data

def matchesFilters (d : Document V) : Bool :=
  q.filters.all fun filter => filter.matchesDocument d.key d.data

def matchesBounds (d : Document V) : Bool :=
  (q.startAt.all fun sortsBefore => sortsBefore d.key d.data) &&
    q.endAt.all fun sortsBefore => !sortsBefore d.key d.data

def matchesDocument (d : Document V) : Bool :=
  q.matchesPathAndCollectionGroup d && q.matchesOrderBy d && q.matchesFilters d &&
    q.matchesBounds d

theorem matchesDocument_congr {d d' : Document V} (hkey : d.key = d'.key)
    (hdata : d.data = d'.data) : q.matchesDocument d = q.matchesDocument d' := by
  simp only [matchesDocument, matchesPathAndCollectionGroup, matchesOrderBy, matchesFilters,
    matchesBounds, hkey, hdata]

def select (m : Option (MaybeDocument V)) : Option (Document V) :=
  (m.bind MaybeDocument.document?).filter q.matchesDocument

theorem select_eq_some {m : Option (MaybeDocument V)} {d : Document V} :
    q.select m = some d ↔ m = some (.document d) ∧ q.matchesDocument d := by
  unfold select
  rw [Option.filter_eq_some_iff]
  apply and_congr_left'
  cases m with
  | none => simp
  | some m => cases m <;> simp [MaybeDocument.document?]

theorem select_key {m : MaybeDocument V} {k : DocumentKey}
    (hm : ∀ d, m.document? = some d → d.key = k) {d : Document V}
    (hd : q.select (some m) = some d) : d.key = k :=
  hm d (Option.filter_eq_some_iff.mp hd).1

def isCollectionGroupQuery : Bool := q.collectionGroup.isSome

def isDocumentQuery : Bool :=
  q.path.length % 2 = 0 && q.collectionGroup.isNone && q.filters.isEmpty

end Query

/-- A `CollectionReference` as a query. -/
def Query.collection (path : ResourcePath) : Query V where
  path := path
  collectionGroup := none
  filters := []
  explicitOrderBys := []
  limitType := .none
  limit := 0
  startAt := none
  endAt := none

theorem matches_document {path : ResourcePath} (hpath : path.length % 2 = 0) (d : Document V) :
    (Query.collection path).matchesDocument d ↔ d.key = ⟨path, hpath⟩ := by
  have hmatches : (Query.collection path).matchesDocument d = decide (path = d.key.path) := by
    simp only [Query.matchesDocument, Query.matchesPathAndCollectionGroup, Query.collection, hpath,
      Query.matchesOrderBy, Query.matchesFilters, Query.matchesBounds, if_true, List.all_nil,
      Option.all_none, Bool.and_true]
    congr
  rw [hmatches]
  constructor
  · intro h
    have hpath := of_decide_eq_true h
    cases hkey : d.key with
    | mk keyPath isDocumentKey =>
      rw [hkey] at hpath
      subst hpath
      rfl
  · intro h
    rw [h]
    exact decide_eq_true rfl

end Firestore
