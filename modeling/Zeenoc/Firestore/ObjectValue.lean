import Std.Data.ExtTreeSet
import Zeenoc.Firestore.Document
import Zeenoc.Library.Loops
import Zeenoc.Library.SortedList

/-! The data of documents: `ObjectValue` of `field_value.cc`, and what mutations do with it. -/

namespace Firestore

abbrev FieldPath := List String
abbrev FieldMask := Std.ExtTreeSet FieldPath
abbrev Timestamp := ℕ

/-- What a transform does to the value of a field. -/
class TransformOperations (F : Type) where
  TransformOperation : Type
  applyToLocalView : TransformOperation → Option F → Timestamp → F
  applyToRemoteDocument : TransformOperation → Option F → F → F
  computeBaseValue : TransformOperation → Option F → Option F

class ObjectValue (V : Type) where
  FieldValue : Type
  empty : V
  get : V → FieldPath → Option FieldValue
  set : V → FieldPath → FieldValue → V
  delete : V → FieldPath → V
  toFieldMask : V → FieldMask
  TransformOperation : Type
  applyToLocalView : TransformOperation → Option FieldValue → Timestamp → FieldValue
  applyToRemoteDocument : TransformOperation → Option FieldValue → FieldValue → FieldValue
  computeBaseValue : TransformOperation → Option FieldValue → Option FieldValue

/-- A value: a map, or anything else. -/
inductive NestedValue (A : Type) where
  | leaf (value : A)
  | object (entries : List (String × NestedValue A))

variable {A : Type}

abbrev Entries (A : Type) := List (String × NestedValue A)

namespace Entries

def find (es : Entries A) (name : String) : Option (NestedValue A) :=
  (es.find? fun e => e.1 = name).map Prod.snd

def eraseChild (es : Entries A) (name : String) : Entries A := es.filter fun e => e.1 ≠ name

def setChild (es : Entries A) (name : String) (value : NestedValue A) : Entries A :=
  SortedList.insert (fun a b => compare a.1 b.1) (name, value) (es.eraseChild name)

def child (es : Entries A) (name : String) : Entries A :=
  match es.find name with
  | some (.object entries) => entries
  | _ => []

/-- The path of a field is not empty. -/
def set : Entries A → FieldPath → NestedValue A → Entries A
  | es, [], _ => es
  | es, [name], value => es.setChild name value
  | es, name :: path, value => es.setChild name (.object (set (es.child name) path value))

def delete : Entries A → FieldPath → Entries A
  | es, [] => es
  | es, [name] => es.eraseChild name
  | es, name :: path =>
    match es.find name with
    | some (.object entries) => es.setChild name (.object (delete entries path))
    | _ => es

end Entries

namespace NestedValue

def get : NestedValue A → FieldPath → Option (NestedValue A)
  | value, [] => some value
  | .object entries, name :: path => (Entries.find entries name).bind fun value => value.get path
  | .leaf _, _ :: _ => none

mutual
/-- The paths of the leaves; an empty map counts as one. -/
def leafPaths : NestedValue A → List FieldPath
  | .leaf _ => [[]]
  | .object entries => if entries.isEmpty then [[]] else entryPaths entries

def entryPaths : List (String × NestedValue A) → List FieldPath
  | [] => []
  | e :: entries => namedPaths e ++ entryPaths entries

def namedPaths : String × NestedValue A → List FieldPath
  | (name, value) => (leafPaths value).map (name :: ·)
end

mutual
def decEq [DecidableEq A] : (v w : NestedValue A) → Decidable (v = w)
  | .leaf x, .leaf y => decidable_of_iff (x = y) (NestedValue.leaf.injEq x y ▸ Iff.rfl)
  | .leaf _, .object _ => isFalse fun h => by cases h
  | .object _, .leaf _ => isFalse fun h => by cases h
  | .object es, .object fs =>
    letI := decEqEntries es fs
    decidable_of_iff (es = fs) (NestedValue.object.injEq es fs ▸ Iff.rfl)

def decEqEntries [DecidableEq A] : (es fs : List (String × NestedValue A)) → Decidable (es = fs)
  | [], [] => isTrue rfl
  | [], _ :: _ => isFalse fun h => by cases h
  | _ :: _, [] => isFalse fun h => by cases h
  | e :: es, f :: fs =>
    letI := decEqNamed e f
    letI := decEqEntries es fs
    decidable_of_iff (e = f ∧ es = fs) (List.cons.injEq e es f fs ▸ Iff.rfl)

def decEqNamed [DecidableEq A] : (e f : String × NestedValue A) → Decidable (e = f)
  | (name, v), (name', w) =>
    letI := decEq v w
    decidable_of_iff (name = name' ∧ v = w) (Prod.mk.injEq name v name' w ▸ Iff.rfl)
end

instance [DecidableEq A] : DecidableEq (NestedValue A) := decEq

end NestedValue

namespace Entries

def get (es : Entries A) (path : FieldPath) : Option (NestedValue A) :=
  (NestedValue.object es).get path

def toFieldMask (es : Entries A) : FieldMask :=
  (NestedValue.entryPaths es).foldl (fun fields path => fields.insert path) ∅

end Entries

instance [TransformOperations (NestedValue A)] : ObjectValue (Entries A) where
  FieldValue := NestedValue A
  empty := []
  get := Entries.get
  set := Entries.set
  delete := Entries.delete
  toFieldMask := Entries.toFieldMask
  TransformOperation := TransformOperations.TransformOperation (NestedValue A)
  applyToLocalView := TransformOperations.applyToLocalView
  applyToRemoteDocument := TransformOperations.applyToRemoteDocument
  computeBaseValue := TransformOperations.computeBaseValue

section NumericIncrement

def longMax : ℤ := 9223372036854775807
def longMin : ℤ := -9223372036854775808

/-- Addition of two numbers of 64 bits, up to the ends of their range. -/
def safeIncrement (x y : ℤ) : ℤ :=
  if 0 < x ∧ longMax - x < y then longMax
  else if x < 0 ∧ y < longMin - x then longMin
  else x + y

def incrementBase : Option (NestedValue FieldValue) → ℤ
  | some (.leaf (.integer n)) => n
  | _ => 0

/-- `NumericIncrementTransform`, by an integer. -/
instance : TransformOperations (NestedValue FieldValue) where
  TransformOperation := ℤ
  applyToLocalView operand previousValue _ :=
    .leaf (.integer (safeIncrement (incrementBase previousValue) operand))
  applyToRemoteDocument _ _ transformResult := transformResult
  computeBaseValue _ previousValue := some (.leaf (.integer (incrementBase previousValue)))

end NumericIncrement
end Firestore
