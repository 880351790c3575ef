import Zeenoc.Library.Runs
import Zeenoc.Turns

/-! One tap on Send Request, while the text field is edited and the store changes. -/

namespace Zeenoc
open Firestore Interleaving Prog

/-- The operation between its turns; `texts` is what the field showed in each callback, `lookups`
the documents that the reads have handed over, `added` the documents that it has added. -/
structure Sending where
  store : Store
  text : String
  program : Op (Option String)
  texts : List String
  lookups : List (ResourcePath × Fields)
  added : List (ResourcePath × Fields)

namespace Sending

def tapped (T : DocumentId) (σ : Store) (text : String) : Sending :=
  ⟨σ, text, sendRequestTapped T, [], [], []⟩

def device (T : DocumentId) (text : String) : Device := ⟨some T, text, ""⟩

inductive Event where
  | edit
  | others
  | answer
  | callback

inductive Step (T : DocumentId) : Sending → Event → Sending → Prop
  | edit {s : Sending} (text : String) : Step T s .edit { s with text := text }
  | others {s : Sending} (σ : Store) : Step T s .others { s with store := σ }
  | answer {s : Sending} {k n} (ok : Bool) (hp : s.program = .read k n) :
      Step T s .answer
        { s with
          program := n (answer ok s.store k)
          lookups := s.lookups ++ ((answer ok s.store k).join.map fun d => (k, d)).toList }
  | callback {s : Sending} (ids : ℕ → DocumentId) (hp : s.program.Runnable)
      (hf : FreshFor FreshId (device T s.text) ids s.program s.store) :
      Step T s .callback
        { s with
          store := (turn (device T s.text) ids s.program s.store).1
          program := (turn (device T s.text) ids s.program s.store).2
          texts := s.texts ++ [s.text]
          added := s.added ++ (addedKeys (device T s.text) ids s.program s.store).filterMap fun k =>
            ((turn (device T s.text) ids s.program s.store).1 k).map fun d => (k, d) }

/-- The document that was looked up is the property `Q`, and the request goes to its landlord with
its address and its id. -/
def Right (s : Sending) (x : ResourcePath × Fields) : Prop :=
  ∃ Q doc L ref a, (["properties", Q], doc) ∈ s.lookups ∧ doc.getString "landlord" = some L ∧
    document ["users"] L = some ref ∧ x.1 = ref ++ ["requests", a] ∧
    x.2.getString "address" = doc.getString "address" ∧ x.2.getString "propertyID" = some Q

def SameProperty (s : Sending) : Prop :=
  ∃ t₁ t₂, s.texts = [t₁, t₂] ∧ document ["properties"] t₁ = some ["properties", t₂]

section Phases
variable (T : DocumentId)

def Lookups (lookups : List (ResourcePath × Fields)) (p : ResourcePath) (d : Fields) : Prop :=
  (p, d) ∈ lookups ∧ ∀ x ∈ lookups, x.1 = ["users", T.val] ∨ x = (p, d)

inductive Phase : Sending → Prop
  | asked (σ : Store) (text : String) :
      Phase ⟨σ, text, .read ["users", T.val] (lookUpProperty T), [], [], []⟩
  | userRead (σ : Store) (text : String) (doc : Option (Option Fields))
      (lookups : List (ResourcePath × Fields)) (hl : ∀ x ∈ lookups, x.1 = ["users", T.val]) :
      Phase ⟨σ, text, lookUpProperty T doc, [], lookups, []⟩
  | looking (σ : Store) (text : String) {t₁ p} (name : String)
      (lookups : List (ResourcePath × Fields)) (hl : ∀ x ∈ lookups, x.1 = ["users", T.val])
      (hp : document ["properties"] t₁ = some p) :
      Phase ⟨σ, text, .read p (sendRequest T name), [t₁], lookups, []⟩
  | found (σ : Store) (text : String) {t₁ p} (name : String) {lookups d}
      (hl : Lookups T lookups p d) (hp : document ["properties"] t₁ = some p) :
      Phase ⟨σ, text, sendRequest T name (some (some d)), [t₁], lookups, []⟩
  | ended (σ : Store) (text : String) {program} (texts : List String)
      (lookups : List (ResourcePath × Fields)) (hr : ¬ program.Runnable)
      (hk : ∀ k n, program ≠ .read k n) : Phase ⟨σ, text, program, texts, lookups, []⟩
  | sent (σ : Store) (text : String) {t₁ t₂ p lookups d L ref address} (a : DocumentId)
      (name : String) (hl : Lookups T lookups p d) (hp : document ["properties"] t₁ = some p)
      (hL : d.getString "landlord" = some L) (href : document ["users"] L = some ref)
      (haddr : d.getString "address" = some address) :
      Phase ⟨σ, text, .pure (some waitingMessage), [t₁, t₂], lookups,
        [(ref ++ ["requests", a.val], requestData T t₂ address name)]⟩

variable {T}

theorem Phase.answered {σ : Store} {text name t₁ : String} {p : ResourcePath}
    {lookups : List (ResourcePath × Fields)} (hl : ∀ x ∈ lookups, x.1 = ["users", T.val])
    (hp : document ["properties"] t₁ = some p) (r : Option (Option Fields)) :
    Phase T ⟨σ, text, sendRequest T name r, [t₁],
      lookups ++ (r.join.map fun d => (p, d)).toList, []⟩ := by
  rcases r with _ | _ | d
  · exact .ended _ _ _ _ (fun h => h) (fun _ _ h => by cases h)
  · exact .ended _ _ _ _ (fun h => h) (fun _ _ h => by cases h)
  · refine .found _ _ _ ⟨by simp, fun x hx => ?_⟩ hp
    rcases List.mem_append.mp hx with hx | hx
    · exact .inl (hl x hx)
    · exact .inr (by simpa using hx)

theorem Phase.lookUp {σ : Store} {text : String} {doc : Option (Option Fields)}
    {lookups : List (ResourcePath × Fields)} (hl : ∀ x ∈ lookups, x.1 = ["users", T.val])
    (ids : ℕ → DocumentId) (hr : (lookUpProperty T doc).Runnable) :
    (addedKeys (device T text) ids (lookUpProperty T doc) σ = []) ∧
      Phase T ⟨(turn (device T text) ids (lookUpProperty T doc) σ).1, text,
        (turn (device T text) ids (lookUpProperty T doc) σ).2, [text], lookups, []⟩ := by
  rcases doc with _ | _ | d
  · exact hr.elim
  · exact hr.elim
  cases hfirst : d.getString "firstName" with
  | none => simp [lookUpProperty, hfirst, Runnable] at hr
  | some firstName =>
    cases hlast : d.getString "lastName" with
    | none => simp [lookUpProperty, hfirst, hlast, Runnable] at hr
    | some lastName =>
      cases hp : document ["properties"] text with
      | none =>
        have hturn : turn (device T text) ids (lookUpProperty T (some (some d))) σ =
            (σ, .trap) := by
          simp [lookUpProperty, hfirst, hlast, device, turn, hp]
        rw [hturn]
        refine ⟨by simp [lookUpProperty, hfirst, hlast, device, addedKeys, hp], ?_⟩
        exact .ended _ _ _ _ (fun h => h) (fun _ _ h => by cases h)
      | some p =>
        have hturn : turn (device T text) ids (lookUpProperty T (some (some d))) σ =
            (σ, .read p (sendRequest T (firstName ++ " " ++ lastName))) :=
          turn_lookUpProperty _ ids σ T hfirst hlast hp
        rw [hturn]
        refine ⟨by simp [lookUpProperty, hfirst, hlast, device, addedKeys, hp], ?_⟩
        exact .looking _ _ _ _ hl hp

theorem Phase.send {σ : Store} {text name t₁ : String} {p : ResourcePath} {d : Fields}
    {lookups : List (ResourcePath × Fields)} (hl : Lookups T lookups p d)
    (hp : document ["properties"] t₁ = some p) (ids : ℕ → DocumentId)
    (hr : (sendRequest T name (some (some d))).Runnable) :
    Phase T ⟨(turn (device T text) ids (sendRequest T name (some (some d))) σ).1, text,
      (turn (device T text) ids (sendRequest T name (some (some d))) σ).2, [t₁, text], lookups,
      (addedKeys (device T text) ids (sendRequest T name (some (some d))) σ).filterMap fun k =>
        ((turn (device T text) ids (sendRequest T name (some (some d))) σ).1 k).map
          fun d => (k, d)⟩ := by
  cases hL : d.getString "landlord" with
  | none => simp [sendRequest, hL, Runnable] at hr
  | some L =>
    cases haddr : d.getString "address" with
    | none => simp [sendRequest, hL, haddr, Runnable] at hr
    | some address =>
      cases href : document ["users"] L with
      | none => simp [sendRequest, hL, haddr, href, Runnable] at hr
      | some ref =>
        have hturn : turn (device T text) ids (sendRequest T name (some (some d))) σ =
            (Function.update σ (ref ++ ["requests", (ids 0).val])
              (some (requestData T text address name)), .pure (some waitingMessage)) :=
          turn_sendRequest _ ids σ T name hL haddr href
        have hadded : addedKeys (device T text) ids (sendRequest T name (some (some d))) σ =
            [ref ++ ["requests", (ids 0).val]] := by
          simp [sendRequest, hL, haddr, href, device, addedKeys]
        rw [hturn, hadded]
        simpa using Phase.sent _ text (ids 0) name hl hp hL href haddr

theorem Phase.move {s : Sending} (h : Phase T s) (σ : Store) (text : String) :
    Phase T { s with store := σ, text := text } := by
  cases h with
  | asked => exact .asked _ _
  | userRead _ _ doc lookups hl => exact .userRead _ _ _ _ hl
  | looking _ _ name lookups hl hp => exact .looking _ _ _ _ hl hp
  | found _ _ name hl hp => exact .found _ _ _ hl hp
  | ended _ _ texts lookups hr hk => exact .ended _ _ _ _ hr hk
  | sent _ _ a name hl hp hL href haddr => exact .sent _ _ _ _ hl hp hL href haddr

theorem lookUpProperty_ne_read (doc : Option (Option Fields)) (k : ResourcePath)
    (n : Option (Option Fields) → Op (Option String)) : lookUpProperty T doc ≠ .read k n := by
  rcases doc with _ | _ | d
  · simp [lookUpProperty]
  · simp [lookUpProperty]
  · cases hfirst : d.getString "firstName" <;> cases hlast : d.getString "lastName" <;>
      simp [lookUpProperty, hfirst, hlast]

theorem sendRequest_ne_read (name : String) (d : Fields) (k : ResourcePath)
    (n : Option (Option Fields) → Op (Option String)) :
    sendRequest T name (some (some d)) ≠ .read k n := by
  cases hL : d.getString "landlord" with
  | none => simp [sendRequest, hL]
  | some L =>
    cases haddr : d.getString "address" <;> cases href : document ["users"] L <;>
      simp [sendRequest, hL, haddr, href]

theorem Phase.answer {s : Sending} (h : Phase T s) {k : ResourcePath}
    {n : Option (Option Fields) → Op (Option String)} (ok : Bool) (hp : s.program = .read k n) :
    Phase T { s with
      program := n (Prog.answer ok s.store k)
      lookups := s.lookups ++ ((Prog.answer ok s.store k).join.map fun d => (k, d)).toList } := by
  cases h with
  | asked σ text =>
    obtain ⟨rfl, rfl⟩ := Prog.read.inj hp
    refine .userRead _ _ _ _ fun x hx => ?_
    obtain ⟨d, -, rfl⟩ : ∃ d, _ ∧ (["users", T.val], d) = x := by simpa using hx
    rfl
  | userRead _ _ doc => exact (lookUpProperty_ne_read doc k n hp).elim
  | looking σ text name lookups hl hdoc =>
    obtain ⟨rfl, rfl⟩ := Prog.read.inj hp
    exact Phase.answered hl hdoc _
  | found _ _ name => exact (sendRequest_ne_read name _ k n hp).elim
  | ended _ _ _ _ _ hk => exact (hk k n hp).elim
  | sent => cases hp

theorem Phase.step {s s' : Sending} {ev : Event} (h : Phase T s) (hs : Step T s ev s') :
    Phase T s' := by
  cases hs with
  | edit text => exact h.move s.store text
  | others σ => exact h.move σ s.text
  | answer ok hp => exact h.answer ok hp
  | callback ids hr hf =>
    cases h with
    | asked => exact hr.elim
    | userRead σ text doc lookups hl =>
      obtain ⟨hadded, hphase⟩ := Phase.lookUp (σ := σ) hl ids hr
      rw [hadded]
      exact hphase
    | looking => exact hr.elim
    | found σ text name hl hp => exact Phase.send hl hp ids hr
    | ended _ _ _ _ hr' => exact (hr' hr).elim
    | sent => exact hr.elim

end Phases

/-- A request that is added is right exactly when the field shows in the second callback the id of
the property that it denoted in the first. -/
theorem sent_right_iff {T : DocumentId} {σ : Store} {text : String} {evs : List Event} {s : Sending}
    (h : Runs.Run (Step T) (tapped T σ text) evs s) :
    (∀ x ∈ s.added, Right s x) ↔ (s.added ≠ [] → SameProperty s) := by
  have hphase : Phase T s := Runs.Run.invariant (I := fun _ s => Phase T s) (.asked σ text)
    (fun _ _ _ _ hs hstep => hs.step hstep) h
  cases hphase with
  | asked => simp
  | userRead => simp
  | looking => simp
  | found => simp
  | ended => simp
  | @sent σ text t₁ t₂ p lookups d L ref address a name hl hp hL href haddr =>
    rw [List.forall_mem_singleton]
    constructor
    · rintro ⟨Q, doc, -, -, -, hlook, -, -, -, -, hid⟩ -
      have hQ : t₂ = Q := by simpa [requestData] using hid
      have hp' : ["properties", Q] = p := by
        rcases hl.2 _ hlook with he | he
        · simp at he
        · exact (Prod.mk.inj he).1
      exact ⟨t₁, t₂, rfl, by rw [hp, hQ, hp']⟩
    · intro hsame
      obtain ⟨u₁, u₂, htexts, hdoc⟩ := hsame (List.cons_ne_nil _ _)
      obtain ⟨rfl, rfl⟩ : t₁ = u₁ ∧ t₂ = u₂ := by simpa using htexts
      obtain rfl := Option.some.inj (hp.symm.trans hdoc)
      refine ⟨t₂, d, L, ref, a.val, hl.1, hL, href, rfl, ?_, ?_⟩
      · rw [haddr]
        simp [requestData]
      · simp [requestData]

section Instances

def listed : Store :=
  Function.update
    (Function.update (fun _ => none) ["users", "T"]
      (some (strings [("firstName", "F"), ("lastName", "N")])))
    ["properties", "Q"] (some (strings [("address", "A"), ("landlord", "L")]))

theorem freshId_listed : FreshId listed newId :=
  ((freshId_empty newId).update (by decide) _).update (by decide) _

def userFields : Fields := strings [("firstName", "F"), ("lastName", "N")]
def propertyQ : Fields := strings [("address", "A"), ("landlord", "L")]

def atSecondCallback : Sending :=
  ⟨listed, "Q", sendRequest tenant "F N" (some (some propertyQ)), ["Q"],
    [(["users", "T"], userFields), (["properties", "Q"], propertyQ)], []⟩

theorem run_secondCallback :
    Runs.Run (Step tenant) (tapped tenant listed "Q") [.answer, .callback, .answer]
      atSecondCallback := by
  have h₁ : Runs.Run (Step tenant) (tapped tenant listed "Q") [.answer]
      ⟨listed, "Q", lookUpProperty tenant (some (some userFields)), [],
        [(["users", "T"], userFields)], []⟩ :=
    Runs.Run.start.step (.answer (k := ["users", "T"]) (n := lookUpProperty tenant) true rfl)
  have h₂ : Runs.Run (Step tenant) (tapped tenant listed "Q") [.answer, .callback]
      ⟨listed, "Q", .read ["properties", "Q"] (sendRequest tenant "F N"), ["Q"],
        [(["users", "T"], userFields)], []⟩ :=
    h₁.step (.callback (fun _ => newId) trivial trivial)
  exact h₂.step
    (.answer (k := ["properties", "Q"]) (n := sendRequest tenant "F N") true rfl)

/-- The text is edited before the second callback: `P` is requested from the landlord of `Q`. -/
theorem request_names_other_property :
    ∃ evs s, Runs.Run (Step tenant) (tapped tenant listed "Q") evs s ∧
      s.added = [(["users", "L", "requests", "N"], requestData tenant "P" "A" "F N")] ∧
      ¬ ∀ x ∈ s.added, Right s x := by
  have hrun := (run_secondCallback.step (.edit "P")).step
    (.callback (fun _ => newId) trivial ⟨freshId_listed, trivial⟩)
  refine ⟨_, _, hrun, rfl, fun hright => ?_⟩
  obtain ⟨Q, doc, -, -, -, hlook, -, -, -, -, hid⟩ := hright _ List.mem_cons_self
  have hQ : Q = "P" := by simpa [requestData, device] using hid.symm
  have hmem : (["properties", "P"], doc) ∈ atSecondCallback.lookups := hQ ▸ hlook
  simp [atSecondCallback] at hmem

theorem request_names_property :
    ∃ evs s, Runs.Run (Step tenant) (tapped tenant listed "Q") evs s ∧
      s.added = [(["users", "L", "requests", "N"], requestData tenant "Q" "A" "F N")] ∧
      ∀ x ∈ s.added, Right s x := by
  have hrun := run_secondCallback.step
    (.callback (fun _ => newId) trivial ⟨freshId_listed, trivial⟩)
  refine ⟨_, _, hrun, rfl, (sent_right_iff hrun).mpr fun _ => ⟨"Q", "Q", rfl, by decide⟩⟩

end Instances
end Sending
end Zeenoc
