import Zeenoc.Library.TableView
import Zeenoc.NotificationsVC
import Zeenoc.ListedIds

/-! The tables of the three screens with a listener: `notificationsVC`, `TenantVC`, `LandlordVC`. -/

namespace Zeenoc
open Firestore TableView

/-- A batch as `View::ApplyChanges` sorts it. -/
structure Batch where
  removed : List (DocumentId × Fields)
  added : List (DocumentId × Fields)
  modified : List (DocumentId × Fields)

def Batch.later (b : Batch) : List DocumentChange :=
  b.added.map (change .added) ++ b.modified.map (change .modified)

def Batch.changes (b : Batch) : List DocumentChange := b.removed.map (change .removed) ++ b.later

section Loop
variable {S R : Type} {src : Source (List DocumentChange) S R} {id : R → String}
  {listed : S → List String} {Exempt : Fields → Prop} {b : Batch} {s s' : S} {ended : Bool}

def Spares (id : R → String) (b : Batch) (l : List R) : Prop :=
  ∀ x ∈ b.removed, x.1.val ∉ l.map id

theorem batch_cases (h : IdLoop src.call listed (fun s => (src.rows s).map id) Exempt)
    (hrun : src.call b.changes s = some (s', ended)) :
    (Spares id b (src.rows s) ∧ ended = true) ∨
      (¬ Spares id b (src.rows s) ∧ ended = false ∧
        (src.rows s').length + 1 = (src.rows s).length) := by
  rcases h.removals hrun with
    ⟨pre, x, post, hsplit, -, hx, hended, -, hrows⟩ | ⟨hR, s₁, hrest, -, -⟩
  · have hxR : x ∈ b.removed := by simp [hsplit]
    refine .inr ⟨fun hspares => hspares x hxR hx, hended, ?_⟩
    have hlen := congrArg List.length hrows
    have hpos := List.length_pos_of_mem hx
    rw [List.length_erase_of_mem hx] at hlen
    simp only [List.length_map] at hlen hpos
    omega
  · exact .inl ⟨hR, h.ended hrest⟩

theorem ids_of_one (h : IdLoop src.call listed (fun s => (src.rows s).map id) Exempt) {k : String}
    (hk : b.removed.map (·.1.val) = [k]) (hadd : b.added = []) (hM : ∀ x ∈ b.modified, Exempt x.2)
    (hrun : src.call b.changes s = some (s', ended)) :
    (src.rows s').map id = ((src.rows s).map id).erase k := by
  obtain ⟨x, hx, rfl⟩ := List.map_eq_singleton_iff.mp hk
  rcases h.removals hrun with
    ⟨pre, y, post, hsplit, -, -, -, -, hrows⟩ | ⟨hR, s₁, hrest, -, hrows⟩
  · have hy : y ∈ b.removed := by simp [hsplit]
    rw [hx] at hy
    rw [hrows, List.mem_singleton.mp hy]
  · have hnot : x.1.val ∉ (src.rows s).map id := hR x (by simp [hx])
    rw [Batch.later, hadd, List.map_nil, List.nil_append] at hrest
    rw [List.erase_of_not_mem hnot, ← hrows]
    exact h.exempt hM hrest

/-- The table of a screen whose callback runs such a loop over each batch, with the entries that end
it for its rows. -/
def listenerOf (src : Source (List DocumentChange) S R)
    (h : IdLoop src.call listed (fun s => (src.rows s).map id) Exempt) :
    TableView.Listener Batch S R String where
  call b := src.call b.changes
  rows := src.rows
  reloadsOnAppear := src.reloadsOnAppear
  key := id
  Whole b s := Spares id b (src.rows s)
  ends_of_whole := fun hb hrun => (batch_cases h hrun).elim (·.2) fun hcut => (hcut.1 hb).elim
  Still b := b.removed = [] ∧ b.added = [] ∧ ∀ x ∈ b.modified, Exempt x.2
  keys_of_still := by
    rintro b s s' ended ⟨hrem, hadd, hM⟩ hrun
    apply h.exempt hM
    simpa [Batch.changes, Batch.later, hrem, hadd] using hrun
  Takes b k := b.removed.map (·.1.val) = [k] ∧ b.added = [] ∧ ∀ x ∈ b.modified, Exempt x.2
  keys_of_takes := fun ⟨hrem, hadd, hM⟩ hrun => ids_of_one h hrem hadd hM hrun

theorem listenerOf_cuts (h : IdLoop src.call listed (fun s => (src.rows s).map id) Exempt) :
    (listenerOf src h).Cuts := by
  intro b s s' ended hnot hrun
  rcases batch_cases h hrun with ⟨hspares, -⟩ | ⟨-, hcut⟩
  · exact (hnot hspares).elim
  · exact hcut

end Loop

section Sources

def TenantVC.source : Source (List DocumentChange) (List Payment) Payment where
  call := firebaseCall
  rows l := l
  reloadsOnAppear := false

def LandlordVC.source : Source (List DocumentChange) LandlordVC.Lists Property where
  call := firebaseCall
  rows s := s.tenantProperties
  reloadsOnAppear := true

def NotificationsVC.table : TableView.Listener Batch (List Request) Request String :=
  listenerOf NotificationsVC.source NotificationsVC.firebaseCall_idLoop

def TenantVC.table : TableView.Listener Batch (List Payment) Payment String :=
  listenerOf TenantVC.source TenantVC.firebaseCall_idLoop

def LandlordVC.table : TableView.Listener Batch LandlordVC.Lists Property String :=
  listenerOf LandlordVC.source LandlordVC.firebaseCall_idLoop

end Sources

section Counts
variable {E S R : Type}

/-- With nothing queued the rows are as many as the entries, and the subscript of each is in range;
an action that is tapped in time deletes its row from an array that is one entry shorter. -/
structure InRange (src : TableView.Listener Batch S R String) (w : Table E S R × List Batch) :
    Prop where
  count : w.1.queue = [] → w.1.shown.length = (src.rows w.1.content).length
  subscript : w.1.queue = [] → ∀ row < w.1.shown.length, ∃ r, src.read w.1 row = some r
  deleteRows : ∀ e row, w.1.swipe = some (e, row) → src.InTime w .tap →
    (src.rows w.1.content).length + 1 = w.1.shown.length

theorem inRange_of_reaches {src : TableView.Listener Batch S R String} {content : S}
    (h₀ : src.rows content = []) {w : Table E S R × List Batch}
    (h : Runs.Reaches src.Step src.InTime (unloaded content, []) w) : InRange src w := by
  have hstep : src.InStep w :=
    TableView.Listener.inStep_of_reaches (TableView.Listener.inStep_unloaded h₀) h
  exact ⟨hstep.synced, fun hq row hrow => hstep.synced.read hq hrow,
    fun e row hswipe hc => hstep.length_of_tap hc hswipe⟩

inductive TableScreen where
  | notificationsVC
  | tenantVC
  | landlordVC

namespace TableScreen

def Content : TableScreen → Type
  | notificationsVC => List Request
  | tenantVC => List Payment
  | landlordVC => LandlordVC.Lists

def Row : TableScreen → Type
  | notificationsVC => Request
  | tenantVC => Payment
  | landlordVC => Property

def Edge : TableScreen → Type
  | notificationsVC => NotificationsVC.Edge
  | tenantVC => Empty
  | landlordVC => Empty

def table : (v : TableScreen) → TableView.Listener Batch v.Content v.Row String
  | notificationsVC => NotificationsVC.table
  | tenantVC => TenantVC.table
  | landlordVC => LandlordVC.table

/-- The arrays after `removeAll` in `viewDidLoad`. -/
def empty : (v : TableScreen) → v.Content
  | notificationsVC => ([] : List Request)
  | tenantVC => ([] : List Payment)
  | landlordVC => (⟨[], []⟩ : LandlordVC.Lists)

abbrev Watched (v : TableScreen) : Type := Table v.Edge v.Content v.Row × List Batch

def loaded (v : TableScreen) : v.Watched := (unloaded v.empty, [])

theorem cuts (v : TableScreen) : v.table.Cuts := by
  intro b s s' ended hnot h
  cases v <;> exact listenerOf_cuts _ b s s' ended hnot h

/-- With nothing queued, a batch keeps the rows as many as the entries exactly when it removes no
entry of the array. -/
theorem deliver_synced_iff {v : TableScreen} {t t' : Table v.Edge v.Content v.Row} {b : Batch}
    (hq : t.queue = []) (h : v.table.Synced t) (hs : v.table.toSource.Step t (.deliver b) t') :
    v.table.Synced t' ↔ v.table.Whole b t.content :=
  TableView.Listener.synced_deliver_iff v.cuts hq h hs

end TableScreen

/-- In every run of steps in time none of the three tables runs past its array. -/
theorem tables_inRange {v : TableScreen} {w : v.Watched}
    (h : Runs.Reaches v.table.Step v.table.InTime v.loaded w) : InRange v.table w := by
  apply inRange_of_reaches _ h
  cases v <;> rfl

section Instances

def loadRow (x : DocumentId × Fields) : Batch := ⟨[], [x], []⟩

def dropRow (x : DocumentId × Fields) : Batch := ⟨[x], [], []⟩

def requestDocument : DocumentId × Fields :=
  (request, strings [("tenantID", "T"), ("propertyID", "Q"), ("address", "A"), ("tenantName", "N")])

def paymentDocument : DocumentId × Fields :=
  (newId, strings [("deadline", "15"), ("rent", "900"), ("status", "Pending"), ("tenantID", "T"),
    ("landlordID", "L"), ("propertyID", "Q")])

theorem reaches_dropped (src : TableView.Listener Batch S R String) (content : S)
    {content₁ content₂ : S} (x : DocumentId × Fields)
    (h₁ : src.call (loadRow x) content = some (content₁, true))
    (h₂ : src.call (dropRow x) content₁ = some (content₂, false)) :
    Runs.Reaches src.Step (fun _ _ => True) ((unloaded content, []) : Table E S R × List Batch)
      (⟨content₁, src.rows content₁, [], none⟩, []) ∧
    Runs.Reaches src.Step (fun _ _ => True) ((unloaded content, []) : Table E S R × List Batch)
      (⟨content₂, src.rows content₁, [], none⟩, [dropRow x]) := by
  have hloaded : src.Step ((unloaded content, []) : Table E S R × List Batch)
      (.deliver (loadRow x)) (⟨content₁, [], [.completion], none⟩, [loadRow x]) := by
    refine ⟨?_, rfl⟩
    show (src.call (loadRow x) content).map _ = _
    rw [h₁]
    rfl
  have hcompleted : src.Step ((⟨content₁, [], [.completion], none⟩, [loadRow x]) :
      Table E S R × List Batch) .block (⟨content₁, [], [.reload], none⟩, [loadRow x]) :=
    ⟨rfl, rfl⟩
  have hreloaded : src.Step ((⟨content₁, [], [.reload], none⟩, [loadRow x]) :
      Table E S R × List Batch) .block (⟨content₁, src.rows content₁, [], none⟩, []) :=
    ⟨rfl, rfl⟩
  have hdropped : src.Step ((⟨content₁, src.rows content₁, [], none⟩, []) :
      Table E S R × List Batch) (.deliver (dropRow x))
      (⟨content₂, src.rows content₁, [], none⟩, [dropRow x]) := by
    refine ⟨?_, rfl⟩
    show (src.call (dropRow x) content₁).map _ = _
    rw [h₂]
    rfl
  have hshown : Runs.Reaches src.Step (fun _ _ => True) (unloaded content, []) _ :=
    ((Runs.Reaches.start.step trivial hloaded).step trivial hcompleted).step trivial hreloaded
  exact ⟨hshown, hshown.step trivial hdropped⟩

/-- A row that was loaded stays after its entry has left, and a tapped action finds the entry of its
row still in the array. -/
theorem tables_overrun :
    (∀ v : TableScreen, ∃ w, Runs.Reaches v.table.Step (fun _ _ => True) v.loaded w ∧
      w.1.queue = [] ∧ w.1.shown.length = 1 ∧ v.table.read w.1 0 = none) ∧
    ∃ w : NotificationsVC.Screen × List Batch,
      Runs.Reaches NotificationsVC.table.Step (fun _ _ => True) (unloaded [], []) w ∧
      w.1.swipe = some (.leading, 0) ∧ w.1.content.length + 1 ≠ w.1.shown.length ∧
      NotificationsVC.table.step w.1 .tap = none := by
  obtain ⟨hshown, hrequests⟩ := reaches_dropped (E := NotificationsVC.Edge) NotificationsVC.table []
    requestDocument rfl rfl
  obtain ⟨-, hpayments⟩ := reaches_dropped (E := Empty) TenantVC.table [] paymentDocument rfl rfl
  obtain ⟨-, hproperties⟩ := reaches_dropped (E := Empty) LandlordVC.table ⟨[], []⟩
    (LandlordVC.firstProperty, LandlordVC.rented) rfl rfl
  refine ⟨fun v => ?_, ?_⟩
  · cases v with
    | notificationsVC => exact ⟨_, hrequests, rfl, rfl, rfl⟩
    | tenantVC => exact ⟨_, hpayments, rfl, rfl, rfl⟩
    | landlordVC => exact ⟨_, hproperties, rfl, rfl, rfl⟩
  · have hswiped : Runs.Reaches NotificationsVC.table.Step (fun _ _ => True)
        ((unloaded [], []) : NotificationsVC.Screen × List Batch)
        (⟨[⟨"R", "N", "A", "T", "Q"⟩], [⟨"R", "N", "A", "T", "Q"⟩], [], some (.leading, 0)⟩, []) :=
      hshown.step (e := .swipe .leading 0) trivial ⟨rfl, rfl⟩
    exact ⟨_, hswiped, rfl, by decide, rfl⟩

theorem tapped_in_time :
    ∃ w : NotificationsVC.Screen × List Batch,
      NotificationsVC.table.InTime w .tap ∧ w.1.swipe = some (.leading, 0) ∧
        w.1.shown.length = 1 ∧ InRange NotificationsVC.table w := by
  let r : Request := ⟨"R", "N", "A", "T", "Q"⟩
  let unchanged : Batch := ⟨[], [], []⟩
  let Reached (w : NotificationsVC.Screen × List Batch) : Prop :=
    Runs.Reaches NotificationsVC.table.Step NotificationsVC.table.InTime (unloaded [], []) w
  have h₁ : Reached (⟨[r], [], [.completion], none⟩, [loadRow requestDocument]) :=
    .step (e := .deliver (loadRow requestDocument)) .start
      (.inr fun _ hx => absurd hx List.not_mem_nil) ⟨rfl, rfl⟩
  have h₂ : Reached (⟨[r], [], [.reload], none⟩, [loadRow requestDocument]) :=
    .step (e := .block) h₁ trivial ⟨rfl, rfl⟩
  have h₃ : Reached (⟨[r], [r], [], none⟩, []) := .step (e := .block) h₂ trivial ⟨rfl, rfl⟩
  have h₄ : Reached (⟨[r], [r], [], some (.leading, 0)⟩, []) :=
    .step (e := .swipe .leading 0) h₃ trivial ⟨rfl, rfl⟩
  have h₅ : Reached (⟨[r], [r], [.completion], some (.leading, 0)⟩, [unchanged]) :=
    .step (e := .deliver unchanged) h₄ (.inr fun _ hx => absurd hx List.not_mem_nil) ⟨rfl, rfl⟩
  have h₆ : Reached (⟨[], [r], [.completion], some (.leading, 0)⟩,
      [unchanged, dropRow requestDocument]) :=
    .step (e := .deliver (dropRow requestDocument)) h₅ (.inl (List.cons_ne_nil _ _)) ⟨rfl, rfl⟩
  refine ⟨_, fun e row hrow => ?_, rfl, rfl, tables_inRange (v := .notificationsVC) h₆⟩
  obtain rfl : row = 0 := (Prod.mk.inj (Option.some.inj hrow)).2.symm
  refine ⟨r, [unchanged], dropRow requestDocument, [], rfl, rfl, ⟨rfl, rfl, fun _ _ => trivial⟩, ?_⟩
  intro d hd
  obtain rfl := List.mem_singleton.mp hd
  exact ⟨rfl, rfl, fun _ _ => trivial⟩

end Instances
end Counts
end Zeenoc
