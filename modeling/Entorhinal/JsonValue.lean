import Entorhinal.Json
import Entorhinal.Table
import Entorhinal.Utf8

/-! JSON values as a program keeps them: the fields of an object in key order, the last
one of a key. -/
namespace Entorhinal.Json

variable {F : Type}

mutual
/-- The value a tree stands for. -/
def ordered : Json F → Json F
  | .array items => .array (orderedItems items)
  | .object fields => .object (orderedFields fields [])
  | value => value

def orderedItems : List (Json F) → List (Json F)
  | [] => []
  | item :: rest => item.ordered :: orderedItems rest

def orderedFields : List (String × Json F) → List (String × Json F) → List (String × Json F)
  | [],kept => kept
  | (key,value) :: rest,kept => orderedFields rest (Table.insertRow key value.ordered kept)
end

mutual
def Sorted : Json F → Prop
  | .array items => SortedItems items
  | .object fields => fields.Pairwise (fun a b => a.1 < b.1) ∧ SortedFields fields
  | _ => True

def SortedItems : List (Json F) → Prop
  | [] => True
  | item :: rest => item.Sorted ∧ SortedItems rest

def SortedFields : List (String × Json F) → Prop
  | [] => True
  | (_,value) :: rest => value.Sorted ∧ SortedFields rest
end

def get? : Json F → String → Option (Json F)
  | .object fields,key => Table.lookup fields key
  | _,_ => none

/-- Indexing by a key; what is not there is null. -/
def field (value : Json F) (key : String) : Json F := (value.get? key).getD .null

def asStr : Json F → Option String
  | .string text => some text
  | _ => none

def asArray : Json F → Option (List (Json F))
  | .array items => some items
  | _ => none

def members : Json F → Option (List (String × Json F))
  | .object fields => some fields
  | _ => none

def asU64 : Json F → Option (Fin (2 ^ 64))
  | .number (.posInt n) => some n
  | _ => none

def isNull : Json F → Bool
  | .null => true
  | _ => false

def isObject : Json F → Bool
  | .object _ => true
  | _ => false

/-- Assignment to a key of an object. -/
def set (built : Json F) (key : String) (value : Json F) : Json F :=
  match built with
  | .object fields => .object (Table.insertRow key value fields)
  | other => other

/-- An object written field by field. -/
def objectOf (fields : List (String × Json F)) : Json F :=
  fields.foldl (fun built f => built.set f.1 f.2) (.object [])

/-- What an object written field by field holds: the last value written under a key. -/
theorem field_objectOf (fields : List (String × Json F)) (key : String) :
    (objectOf fields).field key = ((fields.reverse.find? (·.1 == key)).map Prod.snd).getD .null := by
  suffices folded : ∀ rest : List (String × Json F), ∃ built : List (String × Json F),
      rest.reverse.foldl (fun (built : Json F) f => built.set f.1 f.2) (.object []) = .object built ∧
      (built.Pairwise fun a b => a.1 < b.1) ∧ Table.lookup built key = (rest.find? (·.1 == key)).map Prod.snd by
    obtain ⟨built,written,_,found⟩ := folded fields.reverse
    rw [List.reverse_reverse] at written
    rw [objectOf,written,field,get?,found]
  intro rest
  induction rest with
  | nil => exact ⟨[],rfl,.nil,rfl⟩
  | cons f rest ih =>
    obtain ⟨built,written,sorted,found⟩ := ih
    refine ⟨Table.insertRow f.1 f.2 built,?_,Table.insertRow_sorted _ _ _ sorted,?_⟩
    · rw [List.reverse_cons,List.foldl_append,written]
      rfl
    · rw [Table.lookup_insertRow _ _ _ _ sorted,List.find?_cons]
      by_cases same : key = f.1
      · simp [same]
      · rw [if_neg same,found,beq_eq_false_iff_ne.mpr (Ne.symm same)]

theorem sortedFields_iff {fields : List (String × Json F)} :
    SortedFields fields ↔ ∀ f ∈ fields, f.2.Sorted := by
  induction fields with
  | nil => simp [SortedFields]
  | cons f fields ih =>
    obtain ⟨key,value⟩ := f
    simp [SortedFields,ih]

theorem insertRow_sorted {key : String} {value : Json F} {fields : List (String × Json F)}
    (fresh : value.Sorted) (own : SortedFields fields) : SortedFields (Table.insertRow key value fields) := by
  rw [sortedFields_iff] at own ⊢
  intro f member
  rcases Table.insertRow_mem member with rfl | inside
  · exact fresh
  · exact own f inside

mutual
theorem ordered_sorted : ∀ value : Json F, value.ordered.Sorted
  | .null | .bool _ | .number _ | .string _ => trivial
  | .array items => orderedItems_sorted items
  | .object fields => orderedFields_sorted fields .nil trivial

theorem orderedItems_sorted : ∀ items : List (Json F), SortedItems (orderedItems items)
  | [] => trivial
  | item :: rest => ⟨ordered_sorted item,orderedItems_sorted rest⟩

theorem orderedFields_sorted : ∀ (fields : List (String × Json F)) {kept : List (String × Json F)},
    kept.Pairwise (fun a b => a.1 < b.1) → SortedFields kept →
    (Json.object (orderedFields fields kept)).Sorted
  | [],_,increasing,own => ⟨increasing,own⟩
  | (key,value) :: rest,_,increasing,own =>
    orderedFields_sorted rest (Table.insertRow_sorted key _ _ increasing)
      (insertRow_sorted (ordered_sorted value) own)
end

theorem set_sorted {key : String} {value built : Json F} (own : value.Sorted) (sorted : built.Sorted) :
    (built.set key value).Sorted := by
  cases built with
  | object fields => exact ⟨Table.insertRow_sorted _ _ _ sorted.1,insertRow_sorted own sorted.2⟩
  | _ => exact sorted

theorem field_sorted {value : Json F} (sorted : value.Sorted) (key : String) : (value.field key).Sorted := by
  cases value with
  | object fields =>
    cases found : Table.lookup fields key with
    | none =>
      show ((Table.lookup fields key).getD .null).Sorted
      rw [found]
      trivial
    | some inner =>
      show ((Table.lookup fields key).getD .null).Sorted
      rw [found]
      exact sortedFields_iff.mp sorted.2 _ (Table.mem_of_lookup found)
  | _ => trivial

/-- A field set to what it already is leaves the value. -/
theorem set_present {key : String} {value built : Json F} (sorted : built.Sorted) (found : built.get? key = some value) :
    built.set key value = built := by
  cases built with
  | object fields => exact congrArg Json.object (Table.insertRow_present sorted.1 found)
  | _ => cases found

mutual
/-- Nothing moves in a value that is in order. -/
theorem Sorted.ordered_eq : ∀ {value : Json F}, value.Sorted → value.ordered = value
  | .null,_ | .bool _,_ | .number _,_ | .string _,_ => rfl
  | .array items,sorted => congrArg Json.array (sortedItems_eq sorted)
  | .object fields,sorted => by
    have moved := @sortedFields_eq fields [] (by simpa using sorted.1) sorted.2
    rw [ordered,moved]
    rfl

theorem sortedItems_eq : ∀ {items : List (Json F)}, SortedItems items → orderedItems items = items
  | [],_ => rfl
  | _ :: _,sorted => by rw [orderedItems,Sorted.ordered_eq sorted.1,sortedItems_eq sorted.2]

theorem sortedFields_eq : ∀ {fields kept : List (String × Json F)},
    (kept ++ fields).Pairwise (fun a b => a.1 < b.1) → SortedFields fields →
    orderedFields fields kept = kept ++ fields
  | [],kept,_,_ => (List.append_nil kept).symm
  | (key,value) :: rest,kept,increasing,sorted => by
    have last : Table.insertRow key value kept = kept ++ [(key,value)] := by
      apply Table.insertRow_last
      intro f member
      exact (List.pairwise_append.mp increasing).2.2 f member _ List.mem_cons_self
    rw [orderedFields,Sorted.ordered_eq sorted.1,last,
      sortedFields_eq (by rw [List.append_assoc]; exact increasing) sorted.2,List.append_assoc]
    rfl
end

/-- Of distinct keys, ordering keeps each with its own value. -/
theorem lookup_orderedFields {fields kept : List (String × Json F)} {key : String}
    (increasing : kept.Pairwise fun a b => a.1 < b.1) (distinct : (fields.map Prod.fst).Nodup) :
    Table.lookup (orderedFields fields kept) key =
      ((Table.lookup fields key).map ordered).or (Table.lookup kept key) := by
  induction fields generalizing kept with
  | nil => rfl
  | cons f fields ih =>
    obtain ⟨k,value⟩ := f
    rw [List.map_cons,List.nodup_cons] at distinct
    rw [orderedFields,ih (Table.insertRow_sorted _ _ _ increasing) distinct.2,
      Table.lookup_insertRow _ _ _ _ increasing,Table.lookup]
    by_cases same : k = key
    · subst same
      have absent : Table.lookup fields k = none := by
        rw [Option.eq_none_iff_forall_ne_some]
        intro found present
        exact distinct.1 (List.mem_map.mpr ⟨_,Table.mem_of_lookup present,rfl⟩)
      rw [if_pos rfl,if_pos rfl,absent]
      rfl
    · rw [if_neg same,if_neg (Ne.symm same)]

theorem get?_ordered {fields : List (String × Json F)} {key : String} (distinct : (fields.map Prod.fst).Nodup) :
    (Json.object fields).ordered.get? key = (Table.lookup fields key).map ordered := by
  rw [ordered,get?,lookup_orderedFields .nil distinct]
  cases Table.lookup fields key <;> rfl

/-- A value in order. -/
structure Value (F : Type) where
  json : Json F
  sorted : json.Sorted

def Value.of (tree : Json F) : Value F := ⟨tree.ordered,ordered_sorted tree⟩

theorem Value.ext {a b : Value F} (same : a.json = b.json) : a = b := by
  cases a
  cases b
  cases same
  rfl

instance [DecidableEq F] : DecidableEq (Value F) := fun a b =>
  decidable_of_iff (a.json = b.json) ⟨Value.ext,fun same => by rw [same]⟩

@[simp] theorem Value.of_json (value : Value F) : Value.of value.json = value :=
  Value.ext value.sorted.ordered_eq

/-- A variant without data is its name, or the name over null. -/
def variant {α : Type} (named : String → Option α) : Json F → Option α
  | .string name => named name
  | .object [(name,.null)] => named name
  | _ => none

/-- The fields of a record by name: of an object without unknown or repeated keys, or of an
array in their order. -/
def structGet (names : List String) : Json F → Option (String → Option (Json F))
  | .object fields =>
    if (fields.map Prod.fst).all (names.contains ·) ∧ (fields.map Prod.fst).Nodup then some (Table.lookup fields)
    else none
  | .array items => if items.length = names.length then some (Table.lookup (names.zip items)) else none
  | _ => none

theorem structGet_object {fields : List (String × Json F)} {names : List String} {get : String → Option (Json F)}
    (got : (Json.object fields).structGet names = some get) : get = Table.lookup fields := by
  rw [structGet] at got
  split at got
  next => exact (Option.some.inj got).symm
  next => cases got

def structFields (names : List String) (value : Json F) : Option (List (Option (Json F))) :=
  (value.structGet names).map fun get => names.map get

section
variable [Doubles F]

def text (value : Json F) : Utf8.Bytes := Utf8.encode value.emit

def size (value : Json F) : Nat := value.text.length

/-- The value of a text given by its bytes. -/
def parseBytes (bytes : Utf8.Bytes) : Option (Json F) := (Utf8.decode bytes).bind parse

end

end Entorhinal.Json
