import Mathlib.Data.List.Infix

/-! Resource paths of the bundled Firestore client: `resource_path.cc`, `collection_reference.cc`
and `document_reference.cc`. A failed `HARD_ASSERT` or `HARD_FAIL` is `none`. -/

namespace Firestore

abbrev ResourcePath := List String

/-- `ResourcePath::FromStringView`. Empty segments come from slashes at either end. -/
def fromString (path : String) : Option ResourcePath :=
  if ['/', '/'] <:+: path.toList then none
  else some (((path.toList.splitOn '/').filter (· ≠ [])).map String.ofList)

/-- `CollectionReference::Document`, with the check of the `DocumentReference` constructor. -/
def document (collection : ResourcePath) (path : String) : Option ResourcePath :=
  (fromString path).bind fun sub =>
    if (collection ++ sub).length % 2 = 0 then some (collection ++ sub) else none

/-- An id that the server or `CreateAutoId` handed out: one non-empty segment. -/
structure DocumentId where
  val : String
  ne_empty : val ≠ ""
  noSlash : '/' ∉ val.toList
  deriving DecidableEq

theorem DocumentId.ext_iff_val {a b : DocumentId} : a = b ↔ a.val = b.val := by
  cases a; cases b; simp

theorem fromString_id (q : DocumentId) : fromString q.val = some [q.val] := by
  have hne : q.val.toList ≠ [] := by simpa using q.ne_empty
  have hinfix : ¬ ['/', '/'] <:+: q.val.toList := by
    intro h
    exact q.noSlash (h.subset (by simp))
  unfold fromString
  rw [if_neg hinfix, List.splitOn_eq_singleton q.noSlash]
  simp [hne]

theorem document_id {c : ResourcePath} (hc : c.length % 2 = 1) (q : DocumentId) :
    document c q.val = some (c ++ [q.val]) := by
  have hlen : (c ++ [q.val]).length % 2 = 0 := by
    rw [List.length_append, List.length_singleton]
    omega
  unfold document
  rw [fromString_id, Option.bind_some, if_pos hlen]

theorem document_eq_append {c p : ResourcePath} {s : String} (h : document c s = some p) :
    ∃ sub, fromString s = some sub ∧ p = c ++ sub ∧ (c ++ sub).length % 2 = 0 := by
  obtain ⟨sub, hsub, h⟩ := Option.bind_eq_some_iff.mp h
  split_ifs at h with hlen
  exact ⟨sub, hsub, (Option.some.inj h).symm, hlen⟩

theorem document_ne_nil {c p : ResourcePath} {s : String} (hc : c.length % 2 = 1)
    (h : document c s = some p) : ∃ q rest, p = c ++ q :: rest := by
  obtain ⟨sub, -, rfl, hlen⟩ := document_eq_append h
  cases sub with
  | nil => simp [hc] at hlen
  | cons q rest => exact ⟨q, rest, rfl⟩

example : document ["properties"] "/Q/" = some ["properties", "Q"] := by decide
example : document ["properties"] "a//b" = none := by decide
example : document ["properties"] "" = none := by decide

end Firestore
