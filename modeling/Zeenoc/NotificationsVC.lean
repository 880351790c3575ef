import Zeenoc.Library.ShownRows
import Zeenoc.Library.TableView
import Zeenoc.Operations
import Zeenoc.Listener

/-! The screen of `notificationsVC`: its table, the main queue, and the swipes of the landlord. -/

namespace Zeenoc.NotificationsVC
open Firestore ShownRows TableView

inductive Edge where
  | leading
  | trailing
  deriving DecidableEq

/-- Where writes are issued: in the method that configures the swipe, or in the action's handler. -/
inductive Origin where
  | configuration
  | handler

structure Settlement where
  origin : Origin
  edge : Edge
  request : Request

def Settlement.program (L : DocumentId) (x : Settlement) : Op Unit :=
  match x.edge with
  | .leading => accept L x.request
  | .trailing => decline L x.request

/-- The table over the global array `requests`; its completion block assigns the array to itself. -/
def source : Source (List DocumentChange) (List Request) Request where
  call := firebaseCall
  rows l := l
  reloadsOnAppear := false

abbrev Screen := Table Edge (List Request) Request

def Screen.loaded : Screen := unloaded []

abbrev Input := TableView.Input (List DocumentChange) Edge

/-- The methods that configure a swipe read the request at the row and issue its writes. -/
def Screen.writes (s : Screen) : Input → List Settlement
  | .swipe e row => (s.content[row]?).toList.map fun r => ⟨.configuration, e, r⟩
  | _ => []

def Screen.step (s : Screen) (i : Input) : Option (Screen × List Settlement) :=
  (source.step s i).map fun s' => (s', s.writes i)

def Step (s : Screen) (i : Input) (s' : Screen) : Prop := ∃ out, s.step i = some (s', out)

theorem Screen.step_eq {s s' : Screen} {i : Input} {out : List Settlement} :
    s.step i = some (s', out) ↔ source.step s i = some s' ∧ out = s.writes i := by
  unfold Screen.step
  rw [Option.map_eq_some_iff]
  constructor
  · rintro ⟨t, ht, heq⟩
    obtain ⟨rfl, rfl⟩ := Prod.mk.inj heq
    exact ⟨ht, rfl⟩
  · rintro ⟨ht, rfl⟩
    exact ⟨s', ht, rfl⟩

theorem Screen.writes_cases {s s' : Screen} {i : Input} {out : List Settlement}
    (hs : s.step i = some (s', out)) :
    (∃ e row r, i = .swipe e row ∧ s.content[row]? = some r ∧ out = [⟨.configuration, e, r⟩]) ∨
      (∀ e row, i ≠ .swipe e row) ∧ out = [] := by
  obtain ⟨hstep, rfl⟩ := Screen.step_eq.mp hs
  cases i with
  | swipe e row =>
    cases Source.step_does hstep with
    | @swipe _ _ r _ hr =>
      have hget : s.content[row]? = some r := by
        unfold Source.read at hr
        split_ifs at hr
        exact hr
      exact .inl ⟨e, row, r, rfl, hget, by simp [Screen.writes, hget]⟩
  | _ => exact .inr ⟨by simp, rfl⟩

section Rows

def left (s : Screen) (i : Input) (s' : Screen) (gone : List Request) : List Request :=
  if source.Loads s i then [] else gone ++ s.content.filter (· ∉ s'.content)

/-- The requests added are not listed still. No request shown in a swiped row or above it has left
the array since the rows were loaded, and the request of a tapped row has. -/
def InTime (w : Screen × List Request) : Input → Prop
  | .deliver changes => (addedIds changes).Nodup ∧
      ∀ k ∈ addedIds changes, ∀ r ∈ w.1.content, r.id ≠ k
  | .swipe _ row => ∀ j ≤ row, ∀ r, w.1.shown[j]? = some r → r ∉ w.2
  | .tap => ∀ e row r, w.1.swipe = some (e, row) → w.1.shown[row]? = some r → r ∈ w.2
  | _ => True

/-- The ids in the array are distinct, and the rows that have not left it come first, in order. -/
structure Good (w : Screen × List Request) : Prop where
  nodup : (w.1.content.map Request.id).Nodup
  inStep : InStep (· ∈ w.2) w.1.shown w.1.content

theorem good_loaded : Good (Screen.loaded, []) :=
  ⟨List.nodup_nil, inStep_self fun _ hr => absurd hr List.not_mem_nil⟩

variable {w w' : Screen × List Request}

theorem Good.call (h : Good w) {changes : List DocumentChange} {l' : List Request} {b : Bool}
    (hcall : firebaseCall changes w.1.content = some (l', b)) (hdup : (addedIds changes).Nodup)
    (hnew : ∀ k ∈ addedIds changes, ∀ r ∈ w.1.content, r.id ≠ k) :
    (l'.map Request.id).Nodup ∧
      InStep (· ∈ w.2 ++ w.1.content.filter (· ∉ l')) w.1.shown l' := by
  obtain ⟨new, hsub, hl'⟩ :=
    listen_eq (fun _ _ _ hr => (Request.ofDocument_fields hr).1) hcall
  have hnodup : ((w.1.content ++ new).map Request.id).Nodup := by
    rw [List.map_append]
    refine List.Nodup.append h.nodup (hdup.sublist hsub) fun k hk hk' => ?_
    obtain ⟨r, hr, rfl⟩ := List.mem_map.mp hk
    exact hnew r.id (hsub.subset hk') r hr rfl
  obtain ⟨p, rfl⟩ : ∃ p : Request → Bool, l' = (w.1.content ++ new).filter p := by
    rcases hl' with rfl | ⟨k, rfl⟩
    · exact ⟨fun _ => true, (List.filter_true _).symm⟩
    · exact ⟨_, KeyedList.eraseP_eq_filter hnodup k⟩
  refine ⟨hnodup.sublist (List.filter_sublist.map _),
    ((h.inStep.append new).filter p).congr fun r hr => ?_⟩
  by_cases hgone : r ∈ w.2
  · simp [hgone]
  · have hlisted : r ∈ w.1.content := h.inStep.mem hr hgone
    cases hp : p r <;> simp [hgone, hlisted, hp]

theorem Good.kept {s s' : Screen} {i : Input} {gone : List Request} (h : Good (s, gone))
    (hi : source.Loads s i = false) (hcontent : s'.content = s.content)
    (hrows : InStep (· ∈ gone) s'.shown s.content) : Good (s', left s i s' gone) := by
  have hleft : left s i s' gone = gone := by simp [left, hi, hcontent]
  rw [hleft]
  exact ⟨hcontent ▸ h.nodup, hcontent ▸ hrows⟩

theorem Good.step {i : Input} (h : Good w) (hc : InTime w i)
    (hs : Runs.Recorded Step left w i w') : Good w' := by
  obtain ⟨s, gone⟩ := w
  obtain ⟨s', gone'⟩ := w'
  obtain ⟨⟨out, hstep⟩, hgone⟩ := hs
  replace hstep : source.step s i = some s' := (Screen.step_eq.mp hstep).1
  replace hgone : gone' = left s i s' gone := hgone
  subst hgone
  cases Source.step_does hstep with
  | deliver hcall =>
    obtain ⟨hnodup, hinStep⟩ := h.call hcall hc.1 hc.2
    exact ⟨hnodup, hinStep⟩
  | completion hq => exact h.kept (by simp [Source.Loads, hq]) rfl h.inStep
  | reload hq =>
    have hloaded : source.Loads s .block = true := by simp [Source.Loads, hq]
    unfold left
    rw [if_pos hloaded]
    exact ⟨h.nodup, inStep_self fun _ _ => List.not_mem_nil⟩
  | appear => exact h.kept rfl rfl h.inStep
  | cell => exact h.kept rfl rfl h.inStep
  | swipe => exact h.kept rfl rfl h.inStep
  | cancel => exact h.kept rfl rfl h.inStep
  | @tap e row hswipe hrow =>
    have hshown : s.shown[row]? = some s.shown[row] := List.getElem?_eq_getElem hrow
    exact h.kept rfl rfl (h.inStep.eraseIdx hshown (hc e row _ hswipe hshown))

theorem Good.swipe_shown (h : Good w) (hopen : w.1.swipe.isNone) {e : Edge} {row : ℕ}
    {r : Request} (hr : w.1.shown[row]? = some r) (hc : InTime w (.swipe e row)) :
    ∃ s', w.1.step (.swipe e row) = some (s', [⟨.configuration, e, r⟩]) := by
  have hlt : row < w.1.shown.length := (List.getElem?_eq_some_iff.mp hr).1
  have hget : w.1.content[row]? = some r := h.inStep.getElem? hc hr
  have hread : source.read w.1 row = some r := (Source.read_eq hlt).trans hget
  refine ⟨{ w.1 with swipe := some (e, row) }, Screen.step_eq.mpr ⟨?_, ?_⟩⟩
  · rw [Source.step, if_pos hopen, hread]
    rfl
  · simp [Screen.writes, hget]

/-- Unless a request that has left was added again, no other swipe acts on the request shown. -/
theorem Good.swipe_iff (h : Good w) (hback : ∀ r ∈ w.2, r ∉ w.1.content)
    (hopen : w.1.swipe.isNone) {e : Edge} {row : ℕ} {r : Request}
    (hr : w.1.shown[row]? = some r) :
    (∃ s', w.1.step (.swipe e row) = some (s', [⟨.configuration, e, r⟩])) ↔
      InTime w (.swipe e row) := by
  refine ⟨?_, fun hc => h.swipe_shown hopen hr hc⟩
  rintro ⟨s', hs'⟩ j hj x hx hgone
  have hget : w.1.content[row]? = some r := by
    rcases Screen.writes_cases hs' with ⟨_, _, r', heq, hr', hout⟩ | ⟨-, hout⟩
    · obtain ⟨rfl, rfl⟩ := Input.swipe.inj heq
      obtain rfl : r = r' := (Settlement.mk.inj (List.cons.inj hout).1).2.2
      exact hr'
    · cases hout
  have hlisted : InStep (· ∉ w.1.content) w.1.shown w.1.content := by
    refine h.inStep.congr fun y hy => ⟨fun hnot => ?_, fun hy' => hback y hy'⟩
    by_contra hin
    exact hnot (h.inStep.mem hy hin)
  exact hback x hgone (hlisted.mem_of_getElem? h.nodup.of_map hr hget hj hx)

/-- In a run of steps in time, a swipe acts on the request that its row shows, and no other input
writes anything. -/
theorem swipe_acts_on_shown
    (h : Runs.Reaches (Runs.Recorded Step left) InTime (Screen.loaded, []) w) :
    (∀ e row r, w.1.swipe.isNone → w.1.shown[row]? = some r → InTime w (.swipe e row) →
      ∃ s', w.1.step (.swipe e row) = some (s', [⟨.configuration, e, r⟩])) ∧
    ∀ i s' out, (∀ e row, i ≠ .swipe e row) → w.1.step i = some (s', out) → out = [] := by
  have hgood : Good w := h.invariant good_loaded fun _ _ _ hw hc hs => hw.step hc hs
  refine ⟨fun e row r hopen hr hc => hgood.swipe_shown hopen hr hc, fun i s' out hi hs => ?_⟩
  rcases Screen.writes_cases hs with ⟨e, row, -, rfl, -⟩ | ⟨-, hout⟩
  · exact (hi e row rfl).elim
  · exact hout

end Rows

section Instances

def requestFields (name : String) : Fields := strings [("tenantID", "T" ++ name),
  ("propertyID", "Q"), ("address", "A"), ("tenantName", name)]

def secondId : DocumentId := ⟨"S", by decide, by decide⟩

def firstEntry : Request := ⟨"R", "M", "A", "TM", "Q"⟩
def secondEntry : Request := ⟨"S", "N", "A", "TN", "Q"⟩

def bothAdded : List DocumentChange :=
  [⟨.added, request, requestFields "M"⟩, ⟨.added, secondId, requestFields "N"⟩]

def bothShown : Screen := ⟨[firstEntry, secondEntry], [firstEntry, secondEntry], [], none⟩

theorem reaches_bothShown :
    Runs.Reaches (Runs.Recorded Step left) InTime (Screen.loaded, []) (bothShown, []) := by
  have hnew : InTime (Screen.loaded, []) (.deliver bothAdded) :=
    ⟨by decide, fun _ _ _ hr => absurd hr List.not_mem_nil⟩
  have hadded : Runs.Reaches (Runs.Recorded Step left) InTime (Screen.loaded, [])
      (⟨[firstEntry, secondEntry], [], [.completion], none⟩, []) :=
    Runs.Reaches.start.step hnew ⟨⟨[], rfl⟩, rfl⟩
  have hcompleted : Runs.Reaches (Runs.Recorded Step left) InTime (Screen.loaded, [])
      (⟨[firstEntry, secondEntry], [], [.reload], none⟩, []) :=
    hadded.step (e := .block) trivial ⟨⟨[], rfl⟩, rfl⟩
  exact hcompleted.step (e := .block) trivial ⟨⟨[], rfl⟩, rfl⟩

/-- The first request is removed from elsewhere, the table is not reloaded, and the swipe on its row
accepts the second. -/
theorem swipe_on_other_request :
    ∃ w, Runs.Reaches (Runs.Recorded Step left) (fun _ _ => True) (Screen.loaded, []) w ∧
      w.1.swipe.isNone ∧ w.1.shown[0]? = some firstEntry ∧
      ∃ s', w.1.step (.swipe .leading 0) =
        some (s', [⟨.configuration, .leading, secondEntry⟩]) := by
  have hshown := reaches_bothShown.mono fun _ _ _ => trivial
  have hremoved : Runs.Recorded Step left (bothShown, [])
      (.deliver [⟨.removed, request, requestFields "M"⟩])
      (⟨[secondEntry], [firstEntry, secondEntry], [], none⟩, [firstEntry]) :=
    ⟨⟨[], rfl⟩, by decide⟩
  exact ⟨_, hshown.step trivial hremoved, rfl, rfl, _, rfl⟩

theorem swipe_on_first_request :
    ∃ s : Screen, s.shown = [firstEntry, secondEntry] ∧ s.content = [firstEntry] ∧
      ∃ s', s.step (.swipe .leading 0) = some (s', [⟨.configuration, .leading, firstEntry⟩]) := by
  have hremoved : Runs.Recorded Step left (bothShown, [])
      (.deliver [⟨.removed, secondId, requestFields "N"⟩])
      (⟨[firstEntry], [firstEntry, secondEntry], [], none⟩, [secondEntry]) :=
    ⟨⟨[], rfl⟩, by decide⟩
  have hnew : InTime (bothShown, []) (.deliver [⟨.removed, secondId, requestFields "N"⟩]) :=
    ⟨List.nodup_nil, fun _ hk => absurd hk List.not_mem_nil⟩
  have hrun := reaches_bothShown.step hnew hremoved
  refine ⟨_, rfl, rfl, (swipe_acts_on_shown hrun).1 .leading 0 firstEntry rfl rfl ?_⟩
  intro j hj r hr
  obtain rfl : j = 0 := Nat.le_zero.mp hj
  obtain rfl := Option.some.inj hr
  decide

end Instances
end Zeenoc.NotificationsVC
