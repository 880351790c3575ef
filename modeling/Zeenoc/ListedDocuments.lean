import Zeenoc.Firestore.History
import Zeenoc.Listener

/-! The lists of `notificationsVC` and `TenantVC` over the successive states of their
collections. -/

namespace Zeenoc
open Firestore

section Mirror
variable {R : Type} {id : R → String} {ofDocument : DocumentId → Fields → Option R}
  {Shows : Fields → R → Prop} {old new : Collection} {D : Difference old new} {l l' : List R}
  {b : Bool}

/-- One entry for each document of the collection, showing that document. -/
structure Mirrors (id : R → String) (Shows : Fields → R → Prop) (c : Collection) (l : List R) :
    Prop where
  ids : KeyedList.Lists id l (c.ids fun _ => True)
  shows : ∀ r ∈ l, ∃ q d, c q = some d ∧ id r = q.val ∧ Shows d r

theorem mirrors_nil : Mirrors id Shows (fun _ => none) [] :=
  ⟨KeyedList.lists_nil.congr fun k => by simp [Collection.ids],
    fun _ hr => absurd hr List.not_mem_nil⟩

theorem Mirrors.entry (h : Mirrors id Shows old l) {q : DocumentId} {d : Fields}
    (hd : old q = some d) {r : R} (hr : r ∈ l) (hid : id r = q.val) : Shows d r := by
  obtain ⟨q', d', hd', hid', hshows⟩ := h.shows r hr
  obtain rfl : q' = q := DocumentId.ext_iff_val.mpr (hid'.symm.trans hid)
  obtain rfl := Option.some.inj (hd'.symm.trans hd)
  exact hshows

theorem listen_removed {x : DocumentId × Fields} {cs : List DocumentChange}
    (hx : ∃ r ∈ l, id r = x.1.val) : listen id ofDocument (change .removed x :: cs) l =
      some (l.eraseP fun r => id r = x.1.val, false) := if_pos hx

variable (id ofDocument l) in
theorem listen_isSome (A M : List (DocumentId × Fields)) :
    (∃ l' b, listen id ofDocument (A.map (change .added) ++ M.map (change .modified)) l =
      some (l', b)) ↔ ∀ x ∈ A, ∃ r, ofDocument x.1 x.2 = some r := by
  induction A generalizing l with
  | nil => exact iff_of_true ⟨l, true, listen_modified M⟩ fun _ hx => absurd hx List.not_mem_nil
  | cons x A ih =>
    have hstep : listen id ofDocument ((x :: A).map (change .added) ++ M.map (change .modified)) l =
        (ofDocument x.1 x.2).bind fun r => listen id ofDocument
          (A.map (change .added) ++ M.map (change .modified)) (l ++ [r]) := rfl
    rw [hstep, List.forall_mem_cons]
    cases hx : ofDocument x.1 x.2 with
    | none => simp
    | some r => rw [Option.bind_some, ih]; simp

theorem mem_listen_of_mem {cs : List DocumentChange}
    (h : listen id ofDocument cs l = some (l', b)) {r : R} (hr : r ∈ l)
    (hcs : ∀ c ∈ cs, c.type = .removed → id r ≠ c.documentID.val) : r ∈ l' := by
  induction cs generalizing l with
  | nil =>
    obtain ⟨rfl, -⟩ := Prod.mk.inj (Option.some.inj h)
    exact hr
  | cons c cs ih =>
    have hrest : ∀ c' ∈ cs, c'.type = .removed → id r ≠ c'.documentID.val :=
      fun c' hc' => hcs c' (List.mem_cons_of_mem _ hc')
    rw [listen] at h
    split at h
    next =>
      obtain ⟨r', -, h⟩ := Option.bind_eq_some_iff.mp h
      exact ih h (List.mem_append_left _ hr) hrest
    next => exact ih h hr hrest
    next hc =>
      split at h
      · obtain ⟨rfl, -⟩ := Prod.mk.inj (Option.some.inj h)
        exact (List.mem_eraseP_of_neg (by simpa using hcs c List.mem_cons_self hc)).mpr hr
      · exact ih h hr hrest

/-- A listed removal ends the callback, so that a list which follows had nothing else to do. -/
theorem uncut_of_lists (hl : KeyedList.Lists id l (old.ids fun _ => True))
    (h : listen id ofDocument D.changes l = some (l', b))
    (hl' : KeyedList.Lists id l' (new.ids fun _ => True)) : Uncut D := by
  cases hR : D.removed with
  | nil => exact .inl hR
  | cons x post =>
    have hx : x ∈ D.removed := by simp [hR]
    have hmem : ∃ r ∈ l, id r = x.1.val :=
      (hl.exists_iff _).mpr ((D.removed_mem_ids hx _).mpr trivial)
    have hrun : listen id ofDocument D.changes l =
        some (l.eraseP fun r => id r = x.1.val, false) := by
      unfold Difference.changes
      rw [hR]
      exact listen_removed hmem
    obtain ⟨rfl, -⟩ := Prod.mk.inj (Option.some.inj (hrun.symm.trans h))
    have hids := (hl.eraseP x.1.val).unique hl'
    refine .inr ⟨x, ?_, D.added_eq_nil hids⟩
    have hpost : post = [] := by
      apply List.eq_nil_iff_forall_not_mem.mpr
      intro y hy
      -- another removed document would still be listed
      have hyR : y ∈ D.removed := by simp [hR, hy]
      have hne : y.1.val ≠ x.1.val := by
        intro he
        have hnodup := D.removed_nodup
        rw [hR, List.map_cons, List.nodup_cons] at hnodup
        exact hnodup.1 (List.mem_map.mpr ⟨y, hy, DocumentId.ext_iff_val.mpr he⟩)
      have hyids : y.1.val ∈ new.ids fun _ => True :=
        hids ▸ ⟨(D.removed_mem_ids hyR _).mpr trivial, hne⟩
      exact D.removed_notMem_ids hyR _ hyids
    rw [hR, hpost]

variable (hid : ∀ q d r, ofDocument q d = some r → id r = q.val)
  (hof : ∀ q d r, ofDocument q d = some r → Shows d r)

include hid hof in
theorem Mirrors.listen (hl : Mirrors id Shows old l) (hD : Uncut D)
    (hmod : ∀ x ∈ D.modified, ∀ r ∈ l, id r = x.1.val → Shows x.2 r)
    (h : Zeenoc.listen id ofDocument D.changes l = some (l', b)) : Mirrors id Shows new l' := by
  have hids := listen_follows hid hl.ids hD h
  refine ⟨hids, fun r hr => ?_⟩
  rcases mem_listen _ _ h hr with hrl | ⟨c, hc, hty, hrc⟩
  · obtain ⟨q, d, hd, hrq, hshows⟩ := hl.shows r hrl
    obtain ⟨q', d', hq', hnew, -⟩ := (hids.2 (id r)).mp (List.mem_map_of_mem hr)
    obtain rfl : q' = q := DocumentId.ext_iff_val.mpr (hq'.trans hrq)
    refine ⟨q', d', hnew, hrq, ?_⟩
    rcases D.kept hd hnew with rfl | hmem
    · exact hshows
    · exact hmod (q', d') hmem r hrl hrq
  · have hadd : (c.documentID, c.document) ∈ D.ofType c.type := D.mem_changes hc
    rw [hty] at hadd
    exact ⟨c.documentID, c.document, ((D.mem_added _).mp hadd).2, hid _ _ r hrc, hof _ _ r hrc⟩

include hid hof in
/-- One batch keeps the list in step exactly when its loop is not cut short, its additions can be
read, and the entries of modified documents still show them: a modification changes nothing. -/
theorem mirrors_iff (hl : Mirrors id Shows old l) :
    (∃ l', (listen id ofDocument D.changes l).map Prod.fst = some l' ∧ Mirrors id Shows new l') ↔
      Uncut D ∧ (∀ x ∈ D.added, ∃ r, ofDocument x.1 x.2 = some r) ∧
        ∀ x ∈ D.modified, ∀ r ∈ l, id r = x.1.val → Shows x.2 r := by
  constructor
  · rintro ⟨l', hmap, hl'⟩
    obtain ⟨⟨l', b⟩, hrun, rfl⟩ := Option.map_eq_some_iff.mp hmap
    have hD := uncut_of_lists hl.ids hrun hl'.ids
    refine ⟨hD, ?_, fun x hx r hr hrx => ?_⟩
    · rcases hD with hnone | ⟨x, -, hadd⟩
      · rw [← listen_isSome id ofDocument l D.added D.modified]
        unfold Difference.changes at hrun
        rw [hnone, List.map_nil, List.nil_append] at hrun
        exact ⟨_, _, hrun⟩
      · rw [hadd]
        exact fun _ hx => absurd hx List.not_mem_nil
    · -- a modified document is not removed, so its entry stays as it was
      have hstays := mem_listen_of_mem hrun hr fun c hc hty he => by
        have hgone : (c.documentID, c.document) ∈ D.ofType c.type := D.mem_changes hc
        rw [hty] at hgone
        exact (D.modified_kept hx).2 ⟨_, hgone, he.symm.trans hrx, trivial⟩
      obtain ⟨-, -, hnew⟩ := D.modified_mem hx
      exact hl'.entry hnew hstays hrx
  · rintro ⟨hD, hadd, hmod⟩
    -- the callback does not trap
    obtain ⟨l', b, hrun⟩ : ∃ l' b, listen id ofDocument D.changes l = some (l', b) := by
      rcases hD with hnone | ⟨x, hone, hnadd⟩
      · have hsome := (listen_isSome id ofDocument l D.added D.modified).mpr hadd
        unfold Difference.changes
        rwa [hnone, List.map_nil, List.nil_append]
      · have hx : x ∈ D.removed := by simp [hone]
        have hmem : ∃ r ∈ l, id r = x.1.val :=
          (hl.ids.exists_iff _).mpr ((D.removed_mem_ids hx _).mpr trivial)
        unfold Difference.changes
        rw [hone, List.map_singleton, List.singleton_append]
        exact ⟨_, _, listen_removed hmem⟩
    exact ⟨l', by rw [hrun]; rfl, hl.listen hid hof hD hmod hrun⟩

end Mirror

section Requests

def NotificationsVC.listener (cs : List DocumentChange) (l : List Request) :
    Option (List Request) := (NotificationsVC.firebaseCall cs l).map Prod.fst

def Request.Shows (d : Fields) (r : Request) : Prop :=
  d.getString "tenantID" = some r.tenantID ∧ d.getString "propertyID" = some r.propertyID

def Addressed (d : Fields) : Prop :=
  (∃ tenantID, d.getString "tenantID" = some tenantID) ∧
    ∃ propertyID, d.getString "propertyID" = some propertyID

theorem addressed_iff (id : DocumentId) (d : Fields) :
    Addressed d ↔ ∃ r, Request.ofDocument id d = some r := by
  constructor
  · rintro ⟨⟨t, ht⟩, p, hp⟩
    simp [Request.ofDocument, ht, hp]
  · rintro ⟨r, hr⟩
    obtain ⟨-, ht, hp⟩ := Request.ofDocument_fields hr
    exact ⟨⟨_, ht⟩, _, hp⟩

/-- The requests follow their collection exactly when no batch is cut short and every request that
arrives names its tenant and its property. -/
theorem requests_follow_iff {c : Collection} (h : History c)
    (hmod : History.All (fun D => D.modified = []) h) :
    History.Always NotificationsVC.listener [] (Mirrors Request.id Request.Shows) h ↔
      History.All (fun D => Uncut D ∧ ∀ x ∈ D.added, Addressed x.2) h := by
  refine History.always_iff mirrors_nil (fun D l hD hl => ?_) h hmod
  have hid : ∀ q d r, Request.ofDocument q d = some r → r.id = q.val :=
    fun _ _ _ hr => (Request.ofDocument_fields hr).1
  have hof : ∀ q d r, Request.ofDocument q d = some r → Request.Shows d r :=
    fun _ _ _ hr => (Request.ofDocument_fields hr).2
  refine (mirrors_iff hid hof hl).trans (and_congr_right fun _ => ?_)
  rw [hD]
  constructor
  · exact fun hadd x hx => (addressed_iff x.1 x.2).mpr (hadd.1 x hx)
  · exact fun hadd => ⟨fun x hx => (addressed_iff x.1 x.2).mp (hadd x hx),
      fun _ hx => absurd hx List.not_mem_nil⟩

section Instances

def asking (name : String) : Fields :=
  strings [("tenantID", "T"), ("propertyID", "Q"), ("address", "A"), ("tenantName", name)]

def twoRequests : List (DocumentId × Fields) := [(request, asking "M"), (newId, asking "N")]

theorem twoRequests_nodup : (twoRequests.map Prod.fst).Nodup := by decide

/-- Both requests are removed in one batch: the second stays listed. -/
theorem removed_request_listed :
    History.All (fun D => D.modified = []) (History.cleared twoRequests twoRequests_nodup) ∧
      ¬ History.Always NotificationsVC.listener [] (Mirrors Request.id Request.Shows)
        (History.cleared twoRequests twoRequests_nodup) ∧
      ∃ l, History.run NotificationsVC.listener [] (History.cleared twoRequests twoRequests_nodup) =
        some l ∧ l.map Request.id = ["N"] := by
  have hrun : ∃ l, History.run NotificationsVC.listener []
      (History.cleared twoRequests twoRequests_nodup) = some l ∧ l.map Request.id = ["N"] :=
    ⟨_, rfl, by decide⟩
  refine ⟨⟨⟨trivial, rfl⟩, rfl⟩, ?_, hrun⟩
  rintro ⟨-, l, hl, hmirrors⟩
  obtain ⟨l', hl', hids⟩ := hrun
  obtain rfl := Option.some.inj (hl.symm.trans hl')
  have hlisted := (hmirrors.ids.2 "N").mp (by simp [hids])
  simp [Collection.ids] at hlisted

theorem one_request_follows :
    History.Always NotificationsVC.listener [] (Mirrors Request.id Request.Shows)
      (History.dropped (request, asking "M") [(newId, asking "N")] twoRequests_nodup) := by
  have haddressed : ∀ x ∈ twoRequests, Addressed x.2 := by
    simp [twoRequests, Addressed, asking]
  exact (requests_follow_iff
    (History.dropped (request, asking "M") [(newId, asking "N")] twoRequests_nodup)
    ⟨⟨trivial, rfl⟩, rfl⟩).mpr ⟨⟨trivial, .inl rfl, haddressed⟩, .inr ⟨_, rfl, rfl⟩,
      fun _ hx => absurd hx List.not_mem_nil⟩

end Instances
end Requests

section Payments

def TenantVC.listener (cs : List DocumentChange) (l : List Payment) : Option (List Payment) :=
  (TenantVC.firebaseCall cs l).map Prod.fst

/-- The entry has the strings of the document, three of them in the form that the cell shows. -/
structure Payment.Shows (d : Fields) (p : Payment) : Prop where
  deadline : ∃ s, d.getString "deadline" = some s ∧ p.deadline = "03/" ++ s ++ "/2021"
  rent : ∃ s, d.getString "rent" = some s ∧ p.rent = "$" ++ s
  status : ∃ s, d.getString "status" = some s ∧ p.status = "Status: " ++ s
  tenant : d.getString "tenantID" = some p.tenantID
  landlord : d.getString "landlordID" = some p.landloardID
  property : d.getString "propertyID" = some p.propertyID

def paymentFields : List String :=
  ["deadline", "rent", "status", "tenantID", "landlordID", "propertyID"]

def PaymentComplete (d : Fields) : Prop :=
  ∀ field ∈ paymentFields, ∃ s, d.getString field = some s

theorem PaymentComplete.ofDocument {d : Fields} (h : PaymentComplete d) (id : DocumentId) :
    ∃ p, Payment.ofDocument id d = some p := by
  obtain ⟨deadline, h1⟩ := h "deadline" (by simp [paymentFields])
  obtain ⟨rent, h2⟩ := h "rent" (by simp [paymentFields])
  obtain ⟨status, h3⟩ := h "status" (by simp [paymentFields])
  obtain ⟨tenant, h4⟩ := h "tenantID" (by simp [paymentFields])
  obtain ⟨landlord, h5⟩ := h "landlordID" (by simp [paymentFields])
  obtain ⟨property, h6⟩ := h "propertyID" (by simp [paymentFields])
  simp [Payment.ofDocument, h1, h2, h3, h4, h5, h6]

theorem Payment.ofDocument_shows {id : DocumentId} {d : Fields} {p : Payment}
    (h : Payment.ofDocument id d = some p) : Payment.Shows d p := by
  simp only [Payment.ofDocument, Option.bind_eq_bind, Option.bind_eq_some_iff,
    Option.some.injEq] at h
  obtain ⟨deadline, h1, rent, h2, status, h3, tenant, h4, landlord, h5, property, h6, rfl⟩ := h
  exact ⟨⟨deadline, h1, rfl⟩, ⟨rent, h2, rfl⟩, ⟨status, h3, rfl⟩, h4, h5, h6⟩

theorem Payment.Shows.iff_same {d d' : Fields} {p : Payment} (h : Payment.Shows d p) :
    Payment.Shows d' p ↔ ∀ field ∈ paymentFields, d'.getString field = d.getString field := by
  obtain ⟨⟨dl, hdl, hpdl⟩, ⟨rt, hrt, hprt⟩, ⟨st, hst, hpst⟩, ht, hl, hp⟩ := h
  simp only [paymentFields, List.forall_mem_cons, List.not_mem_nil, false_implies, implies_true,
    and_true]
  constructor
  · rintro ⟨⟨dl', hdl', hpdl'⟩, ⟨rt', hrt', hprt'⟩, ⟨st', hst', hpst'⟩, ht', hl', hp'⟩
    obtain rfl : dl' = dl := by
      have hpadded := hpdl'.symm.trans hpdl
      rwa [String.append_left_inj, String.append_right_inj] at hpadded
    obtain rfl : rt' = rt := (String.append_right_inj _).mp (hprt'.symm.trans hprt)
    obtain rfl : st' = st := (String.append_right_inj _).mp (hpst'.symm.trans hpst)
    exact ⟨hdl'.trans hdl.symm, hrt'.trans hrt.symm, hst'.trans hst.symm, ht'.trans ht.symm,
      hl'.trans hl.symm, hp'.trans hp.symm⟩
  · rintro ⟨hdl', hrt', hst', ht', hl', hp'⟩
    exact ⟨⟨dl, hdl'.trans hdl, hpdl⟩, ⟨rt, hrt'.trans hrt, hprt⟩, ⟨st, hst'.trans hst, hpst⟩,
      ht'.trans ht, hl'.trans hl, hp'.trans hp⟩

/-- The payments follow their collection, contents included, exactly when no batch is cut short and
no modification changes one of the six strings. -/
theorem payments_follow_iff {c : Collection} (h : History c)
    (hc : History.All (fun {_ new} _ => ∀ id d, new id = some d → PaymentComplete d) h) :
    History.Always TenantVC.listener [] (Mirrors Payment.id Payment.Shows) h ↔
      History.All (fun {old _} D => Uncut D ∧ ∀ x ∈ D.modified, ∀ d, old x.1 = some d →
        ∀ field ∈ paymentFields, x.2.getString field = d.getString field) h := by
  refine History.always_iff mirrors_nil (fun {old new} D l hD hl => ?_) h hc
  have hid : ∀ q d p, Payment.ofDocument q d = some p → p.id = q.val :=
    fun _ _ _ hp => Payment.ofDocument_id hp
  have hof : ∀ q d p, Payment.ofDocument q d = some p → Payment.Shows d p :=
    fun _ _ _ hp => Payment.ofDocument_shows hp
  refine (mirrors_iff hid hof hl).trans (and_congr_right fun _ => ?_)
  have hadd : ∀ x ∈ D.added, ∃ p, Payment.ofDocument x.1 x.2 = some p :=
    fun x hx => (hD x.1 x.2 ((D.mem_added x).mp hx).2).ofDocument x.1
  rw [and_iff_right hadd]
  constructor
  · intro hstill x hx d hd
    obtain ⟨p, hp, hpid⟩ := (hl.ids.exists_iff x.1.val).mpr ⟨x.1, d, rfl, hd, trivial⟩
    exact (hl.entry hd hp hpid).iff_same.mp (hstill x hx p hp hpid)
  · intro hsame x hx p hp hpid
    obtain ⟨d, hd, -⟩ := D.modified_mem hx
    exact (hl.entry hd hp hpid).iff_same.mpr (hsame x hx d hd)

section Instances

def paymentWith (status : String) : Fields := strings [("deadline", "15"), ("rent", "900"),
  ("status", status), ("tenantID", "T"), ("landlordID", "L"), ("propertyID", "Q")]

theorem paymentWith_complete (status : String) : PaymentComplete (paymentWith status) := by
  intro field h
  simp only [paymentFields, List.mem_cons, List.not_mem_nil, or_false] at h
  rcases h with rfl | rfl | rfl | rfl | rfl | rfl <;> simp [paymentWith]

theorem pending_ne_paid : paymentWith "Pending" ≠ paymentWith "Paid" := by
  intro h
  exact absurd (congrFun h "status") (by decide)

theorem complete_rewritten (status : String) (q : DocumentId) (d : Fields)
    (hd : Collection.ofList [(newId, paymentWith status)] q = some d) : PaymentComplete d := by
  have hnodup : ([(newId, paymentWith status)].map Prod.fst).Nodup := List.nodup_singleton newId
  have hmem := (ofList_eq_some hnodup (q, d)).mp hd
  obtain ⟨rfl, rfl⟩ := Prod.mk.inj (List.mem_singleton.mp hmem)
  exact paymentWith_complete status

/-- The status of a payment changes, and the entry goes on showing the old one. -/
theorem payment_status_stale :
    History.All (fun {_ new} _ => ∀ id d, new id = some d → PaymentComplete d)
        (History.rewritten newId pending_ne_paid) ∧
      ¬ History.Always TenantVC.listener [] (Mirrors Payment.id Payment.Shows)
        (History.rewritten newId pending_ne_paid) ∧
      ∃ l, History.run TenantVC.listener [] (History.rewritten newId pending_ne_paid) = some l ∧
        l.map Payment.status = ["Status: Pending"] := by
  have hrun : ∃ l, History.run TenantVC.listener [] (History.rewritten newId pending_ne_paid) =
      some l ∧ l.map Payment.status = ["Status: Pending"] := ⟨_, rfl, by decide⟩
  refine ⟨⟨⟨trivial, complete_rewritten "Pending"⟩, complete_rewritten "Paid"⟩, ?_, hrun⟩
  rintro ⟨-, l, hl, hmirrors⟩
  obtain ⟨l', hl', hstatus⟩ := hrun
  obtain rfl := Option.some.inj (hl.symm.trans hl')
  obtain ⟨p, rfl⟩ : ∃ p, l = [p] := List.length_eq_one_iff.mp (by
    rw [← List.length_map (f := Payment.status), hstatus]; rfl)
  obtain ⟨q, d, hd, -, hshows⟩ := hmirrors.shows p List.mem_cons_self
  obtain rfl : d = paymentWith "Paid" := by
    have hmem := (ofList_eq_some (l := [(newId, paymentWith "Paid")]) (by decide) (q, d)).mp hd
    exact (Prod.mk.inj (List.mem_singleton.mp hmem)).2
  obtain ⟨s, hs, hps⟩ := hshows.status
  obtain rfl : "Paid" = s := Option.some.inj hs
  rw [List.map_singleton, hps] at hstatus
  exact absurd hstatus (by decide)

def twoPayments : List (DocumentId × Fields) :=
  [(request, paymentWith "Paid"), (newId, paymentWith "Pending")]

theorem twoPayments_nodup : (twoPayments.map Prod.fst).Nodup := by decide

theorem one_payment_follows :
    History.Always TenantVC.listener [] (Mirrors Payment.id Payment.Shows)
      (History.dropped (request, paymentWith "Paid") [(newId, paymentWith "Pending")]
        twoPayments_nodup) := by
  have hfill : ∀ (id : DocumentId) (d : Fields), Collection.ofList twoPayments id = some d →
      PaymentComplete d := by
    intro id d hd
    have hcomplete : ∀ x ∈ twoPayments, PaymentComplete x.2 := by
      simp [twoPayments, paymentWith_complete]
    exact hcomplete (id, d) ((ofList_eq_some twoPayments_nodup (id, d)).mp hd)
  exact (payments_follow_iff (History.dropped (request, paymentWith "Paid")
    [(newId, paymentWith "Pending")] twoPayments_nodup)
    ⟨⟨trivial, hfill⟩, complete_rewritten "Pending"⟩).mpr
    ⟨⟨trivial, .inl rfl, fun _ hx => absurd hx List.not_mem_nil⟩, .inr ⟨_, rfl, rfl⟩,
      fun _ hx => absurd hx List.not_mem_nil⟩

end Instances
end Payments
end Zeenoc
