import Entorhinal.MoveWireAbort
import Entorhinal.SnapshotParts
import Entorhinal.Traverse
import Mathlib.Data.Nat.Digits.Defs

/-! How an image is packed: the parts hold its rows and agents in order, each part fits the cap, and a
row is refused exactly if it fits no part. -/
namespace Entorhinal.Json

variable {F : Type} [Doubles F]

theorem weight_append (a b : List (String × Json F)) : weight (a ++ b) = weight a + weight b := by
  simp [weight]

omit [Doubles F] in
theorem insertRow_keys {key : String} {value : Json F} {kept : List (String × Json F)} (fresh : ∀ f ∈ kept, f.1 ≠ key) :
    ((Table.insertRow key value kept).map Prod.fst).Perm (key :: kept.map Prod.fst) := by
  induction kept with
  | nil => rfl
  | cons f kept ih =>
    obtain ⟨k,v⟩ := f
    have rest := ih fun f inside => fresh f (List.mem_cons_of_mem _ inside)
    rw [Table.insertRow]
    split
    next => rfl
    next =>
      rw [if_neg (Ne.symm (fresh _ List.mem_cons_self))]
      exact (rest.cons k).trans (List.Perm.swap key k _)

/-- Sorting the keys of an object moves bytes and makes none. -/
theorem weight_orderedFields {fields kept : List (String × Json F)}
    (distinct : ((kept ++ fields).map Prod.fst).Nodup) :
    weight (orderedFields fields kept) = weight kept + weight (fields.map fun f => (f.1,f.2.ordered)) := by
  induction fields generalizing kept with
  | nil => simp [orderedFields,weight]
  | cons f fields ih =>
    obtain ⟨key,value⟩ := f
    have moved : ((kept ++ (key,value) :: fields).map Prod.fst).Perm ((key :: kept.map Prod.fst) ++ fields.map Prod.fst) := by
      rw [List.map_append,List.map_cons]
      exact List.perm_middle
    have apart := moved.nodup_iff.mp distinct
    have fresh : ∀ f ∈ kept, f.1 ≠ key := by
      rintro f inside rfl
      exact (List.nodup_cons.mp apart).1 (List.mem_append_left _ (List.mem_map_of_mem inside))
    have inserted : ((Table.insertRow key value.ordered kept ++ fields).map Prod.fst).Nodup := by
      rw [List.map_append]
      refine ((insertRow_keys fresh).append_right _).nodup_iff.mpr apart
    rw [orderedFields,ih inserted,weight_insertRow fresh,List.map_cons,show
      weight ((key,value.ordered) :: fields.map fun f => (f.1,f.2.ordered)) = _ from weight_append [_] _]
    simp only [weight,List.map_cons,List.map_nil,List.sum_cons,List.sum_nil]
    omega

theorem weight_sorted {fields : List (String × Json F)} (distinct : (fields.map Prod.fst).Nodup) :
    weight (orderedFields fields []) = weight (fields.map fun f => (f.1,f.2.ordered)) :=
  (weight_orderedFields distinct).trans (Nat.zero_add _)

end Entorhinal.Json

namespace Entorhinal.Snapshot

open Remote (AgentChangeEntry MemberName ProjectEntry SharedRow TableChanges)
open Json (Doubles)

variable {F : Type}

section Size
variable [Doubles F]

theorem length_encode_digits {chars : List Char} (digits : Json.allDigits chars) :
    (Utf8.encode chars).length = chars.length := by
  induction chars with
  | nil => rfl
  | cons c chars ih =>
    have ascii : c.utf8Size = 1 := by
      rw [Char.utf8Size_eq_one_iff]
      have bounds : c.toNat ≤ 57 := (Char.isDigit_iff_toNat.mp (digits c List.mem_cons_self)).2
      show c.toNat ≤ 127
      omega
    rw [Utf8.length_encode_cons,ih fun d inside => digits d (List.mem_cons_of_mem _ inside),ascii,List.length_cons]
    omega

theorem size_count (n : Count) : (countValue n : Json F).size = (Nat.toDigits 10 n.val).length := by
  have digits : Json.allDigits (Nat.toDigits 10 n.val) := fun c inside => Nat.isDigit_of_mem_toDigits (by decide) (by decide) inside
  rw [← length_encode_digits digits]
  have plain : (Json.Number.posInt n : Json.Number F).literal.text = Nat.toDigits 10 n.val := by
    simp [Json.Number.literal,Json.Literal.text,Json.fractionText,Json.exponentText]
  show (Utf8.encode (Json.Number.posInt n : Json.Number F).literal.text).length = _
  rw [plain]

/-- No count is written wider than the largest one. -/
theorem size_count_le (n : Count) : (countValue n : Json F).size ≤ (countValue (Fin.last _) : Json F).size := by
  rw [size_count,size_count]
  have widest : (Nat.toDigits 10 (Fin.last (2 ^ 64 - 1)).val).length = 20 := by decide +kernel
  refine le_trans (Nat.toDigits_length 10 n.val 20 (by decide) ?_) (le_of_eq widest.symm)
  have bound := n.isLt
  omega

variable (form : AgentForm F)

omit [Doubles F] in
theorem wireFields_keys (id : String) (part parts : Count) (image : ProjectEntry F) (base : Option Count) :
    ((wireFields form id part parts image base).map Prod.fst).Nodup := by
  unfold wireFields imageFields
  cases base <;> cases image.agents.isEmpty <;> cases image.memberName <;> simp

theorem length_body (id : String) (part parts : Count) (image : ProjectEntry F) (base : Option Count) :
    (body form id part parts image base).length =
      Json.weight ((wireFields form id part parts image base).map fun f => (f.1,f.2.ordered)) + 1 := by
  have filled : Json.orderedFields (wireFields form id part parts image base) [] ≠ [] := by
    intro empty
    have weighed := Json.weight_sorted (wireFields_keys form id part parts image base)
    rw [empty] at weighed
    simp [Json.weight,wireFields] at weighed
    omega
  show (Json.object (Json.orderedFields (wireFields form id part parts image base) [])).size = _
  rw [Json.size_object filled,Json.weight_sorted (wireFields_keys form id part parts image base)]

/-- The estimate is an upper bound of every part with the image, wherever it stands. -/
theorem body_le_estimate (id : String) (part parts : Count) (image : ProjectEntry F) (base : Option Count) :
    (body form id part parts image base).length ≤ estimate form id base image := by
  rw [estimate,length_body,length_body]
  have first := size_count_le (F := F) part
  have second := size_count_le (F := F) parts
  cases base with
  | none =>
    simp only [wireFields,Option.map_none,Option.toList_none,List.append_nil,List.map_append,Json.weight_append]
    simp only [Json.weight,countValue,Json.ordered,List.map_cons,List.map_nil,List.sum_cons,List.sum_nil] at first second ⊢
    omega
  | some base =>
    have third := size_count_le (F := F) base
    simp only [wireFields,Option.map_some,Option.toList_some,List.map_append,Json.weight_append]
    simp only [Json.weight,countValue,Json.ordered,List.map_cons,List.map_nil,List.sum_cons,List.sum_nil] at first second third ⊢
    omega

end Size

section Content

/-- The rows that an image brings into a table. -/
def rowsOf (image : ProjectEntry F) (table : String) : List (SharedRow F) :=
  ((image.tables.get? table).map TableChanges.upsert).getD []

/-- No table without rows and no deletions. -/
def Clean (tables : Table String (TableChanges F)) : Prop :=
  ∀ table changes, tables.get? table = some changes → changes.upsert ≠ [] ∧ changes.delete = []

theorem clean_extend {tables : Table String (TableChanges F)} (clean : Clean tables) {t : String × TableChanges F}
    (filled : t.2.upsert ≠ []) : Clean (extend tables t) := by
  intro table changes found
  rw [extend,Table.get?_insert] at found
  split at found
  next =>
    cases found
    refine ⟨fun empty => filled (List.append_eq_nil_iff.mp empty).2,?_⟩
    cases known : tables.get? t.1 with
    | none => rfl
    | some known' => exact (clean _ _ known).2
  next => exact clean table changes found

/-- The rows of one table in the changes of many. -/
def upserts (changes : List (String × TableChanges F)) (table : String) : List (SharedRow F) :=
  changes.flatMap fun t => if t.1 = table then t.2.upsert else []

@[simp] theorem upserts_cons (t : String × TableChanges F) (changes : List (String × TableChanges F)) (table : String) :
    upserts (t :: changes) table = (if t.1 = table then t.2.upsert else []) ++ upserts changes table := rfl

theorem upserts_rows (tables : Table String (TableChanges F)) (table : String) :
    upserts tables.rows table = ((tables.get? table).map TableChanges.upsert).getD [] := by
  obtain ⟨rows,sorted⟩ := tables
  show upserts rows table = ((Table.lookup rows table).map TableChanges.upsert).getD []
  induction rows with
  | nil => rfl
  | cons t rows ih =>
    obtain ⟨key,changes⟩ := t
    obtain ⟨first,rest⟩ := List.pairwise_cons.mp sorted
    rw [upserts_cons,Table.lookup]
    by_cases same : key = table
    · subst same
      have absent : ∀ t ∈ rows, (if t.1 = key then t.2.upsert else []) = [] := fun t inside =>
        if_neg (first t inside).ne'
      rw [if_pos rfl,if_pos rfl,upserts,List.flatMap_eq_nil_iff.mpr absent,List.append_nil]
      rfl
    · rw [if_neg same,if_neg same]
      exact ih rest

theorem rowsOf_joined (current unit : ProjectEntry F) (table : String) :
    rowsOf (joined current unit) table = rowsOf current table ++ rowsOf unit table := by
  have folded : ∀ (changes : List (String × TableChanges F)) (tables : Table String (TableChanges F)),
      (((changes.foldl extend tables).get? table).map TableChanges.upsert).getD [] =
        ((tables.get? table).map TableChanges.upsert).getD [] ++ upserts changes table := by
    intro changes
    induction changes with
    | nil => exact fun tables => (List.append_nil _).symm
    | cons t changes ih =>
      intro tables
      rw [List.foldl_cons,ih,extend,Table.get?_insert,upserts_cons]
      split
      next same =>
        subst same
        rw [if_pos rfl,← List.append_assoc]
        cases tables.get? t.1 <;> rfl
      next other =>
        rw [if_neg (Ne.symm other),List.nil_append]
  rw [rowsOf,joined,folded,upserts_rows]
  rfl

theorem clean_joined {current unit : ProjectEntry F} (left : Clean current.tables) (right : Clean unit.tables) :
    Clean (joined current unit).tables := by
  have folded : ∀ (changes : List (String × TableChanges F)) (tables : Table String (TableChanges F)),
      Clean tables → (∀ t ∈ changes, t.2.upsert ≠ []) → Clean (changes.foldl extend tables) := by
    intro changes
    induction changes with
    | nil => exact fun _ clean _ => clean
    | cons t changes ih =>
      exact fun tables clean filled => ih _ (clean_extend clean (filled t List.mem_cons_self))
        fun u inside => filled u (List.mem_cons_of_mem _ inside)
  exact folded _ _ left fun t inside => (right t.1 t.2 (Table.mem_rows.mp inside)).1

theorem clean_empty : Clean (∅ : Table String (TableChanges F)) := by
  intro table changes found
  cases found

/-- What the parts bring is added in their order; the name is the last one that a part has. -/
theorem merge_fold {parts : List (ProjectEntry F)} (clean : ∀ part ∈ parts, Clean part.tables) (start : ProjectEntry F)
    (started : Clean start.tables) :
    ∃ merged, parts.foldlM mergePart start = .ok merged ∧ merged.op = start.op ∧ Clean merged.tables ∧
      (∀ table, rowsOf merged table = rowsOf start table ++ parts.flatMap fun part => rowsOf part table) ∧
      merged.agents = start.agents ++ parts.flatMap ProjectEntry.agents ∧
      merged.memberName = (parts.map ProjectEntry.memberName).foldl (fun name own => own.or name) start.memberName := by
  induction parts generalizing start with
  | nil => exact ⟨start,rfl,rfl,started,fun _ => (List.append_nil _).symm,(List.append_nil _).symm,rfl⟩
  | cons part parts ih =>
    obtain ⟨own,others⟩ := List.forall_mem_cons.mp clean
    have next : Clean ({ joined start part with memberName := part.memberName.or start.memberName }).tables :=
      clean_joined started own
    obtain ⟨merged,folded,op,kept,rows,agents,name⟩ := ih others _ next
    refine ⟨merged,?_,op,kept,?_,?_,name⟩
    · rw [List.foldlM_cons,mergePart,if_neg]
      · exact folded
      · rw [List.any_eq_true]
        rintro ⟨t,inside,deletes⟩
        rw [(own t.1 t.2 (Table.mem_rows.mp inside)).2] at deletes
        cases deletes
    · intro table
      rw [rows table,List.flatMap_cons,← List.append_assoc]
      exact congrArg (· ++ _) (rowsOf_joined start part table)
    · rw [agents,List.flatMap_cons,← List.append_assoc]
      rfl

theorem last_name (name : Option MemberName) (n : Nat) :
    (name :: List.replicate n none).foldl (fun name own : Option MemberName => own.or name) none = name := by
  rw [List.foldl_cons,Option.or_none]
  induction n with
  | zero => rfl
  | succ n ih => rw [List.replicate_succ,List.foldl_cons,Option.none_or,ih]

end Content

section Packing
variable [Doubles F] (form : AgentForm F) (id : String) (base : Option Count)

structure Piece (image : ProjectEntry F) : Prop where
  op : image.op = "shared.snapshot"
  clean : Clean image.tables
  nameless : image.memberName = none

/-- The images hold what the units hold, in their order; the first has the name, and each fits. -/
structure Packs (name : Option MemberName) (units images : List (ProjectEntry F)) : Prop where
  rows : ∀ table, (images.flatMap fun image => rowsOf image table) = units.flatMap fun unit => rowsOf unit table
  agents : images.flatMap ProjectEntry.agents = units.flatMap ProjectEntry.agents
  ops : ∀ image ∈ images, image.op = "shared.snapshot"
  clean : ∀ image ∈ images, Clean image.tables
  names : ∃ n, images.map ProjectEntry.memberName = name :: List.replicate n none
  fits : ∀ image ∈ images, estimate form id base image ≤ snapshotCap

variable {form id base}

theorem place_ok {state state' : List (ProjectEntry F) × ProjectEntry F} {unit : String × ProjectEntry F}
    (ok : place form id base state unit = .ok state') :
    estimate form id base unit.2 ≤ snapshotCap ∧
      (state' = (state.1 ++ [state.2],unit.2) ∨
        estimate form id base (joined state.2 unit.2) ≤ snapshotCap ∧ state' = (state.1,joined state.2 unit.2)) := by
  unfold place at ok
  dsimp only at ok
  split at ok
  next => cases ok
  next small =>
    refine ⟨not_lt.mp small,?_⟩
    split at ok
    next => exact .inl (Except.ok.inj ok).symm
    next room => exact .inr ⟨not_lt.mp room,(Except.ok.inj ok).symm⟩

/-- A unit alone decides whether it is refused, whatever was packed before it. -/
theorem place_error {state : List (ProjectEntry F) × ProjectEntry F} {unit : String × ProjectEntry F} {e : String × String} :
    place form id base state unit = .error e ↔
      snapshotCap < estimate form id base unit.2 ∧ e = tooLarge unit.1 (estimate form id base unit.2) := by
  unfold place
  dsimp only
  split
  next large =>
    constructor
    · intro same
      exact ⟨large,(Except.error.inj same).symm⟩
    · rintro ⟨_,rfl⟩
      rfl
  next small =>
    refine iff_of_false ?_ fun refused => small refused.1
    split <;> intro other <;> cases other

theorem Packs.place {name : Option MemberName} {units : List (ProjectEntry F)}
    {state state' : List (ProjectEntry F) × ProjectEntry F} {unit : String × ProjectEntry F}
    (packs : Packs form id base name units (state.1 ++ [state.2])) (piece : Piece unit.2)
    (ok : place form id base state unit = .ok state') :
    Packs form id base name (units ++ [unit.2]) (state'.1 ++ [state'.2]) := by
  obtain ⟨done,current⟩ := state
  obtain ⟨n,names⟩ := packs.names
  obtain ⟨fits,rfl | ⟨room,rfl⟩⟩ := place_ok ok
  · -- the current part is closed and the unit opens the next one
    have each : ∀ {Q : ProjectEntry F → Prop}, (∀ image ∈ done ++ [current], Q image) → Q unit.2 →
        ∀ image ∈ done ++ [current] ++ [unit.2], Q image := by
      intro Q old new
      exact List.forall_mem_append.mpr ⟨old,List.forall_mem_singleton.mpr new⟩
    refine ⟨?_,?_,each packs.ops piece.op,each packs.clean piece.clean,⟨n + 1,?_⟩,each packs.fits fits⟩
    · intro table
      rw [List.flatMap_append,packs.rows table,List.flatMap_append]
    · rw [List.flatMap_append,packs.agents,List.flatMap_append]
    · rw [List.map_append,names,List.replicate_succ',List.map_singleton,piece.nameless]
      rfl
  · -- the unit goes into the current part
    have each : ∀ {Q : ProjectEntry F → Prop}, (∀ image ∈ done ++ [current], Q image) → (Q current → Q (joined current unit.2)) →
        ∀ image ∈ done ++ [joined current unit.2], Q image := by
      intro Q old grow
      obtain ⟨before,last⟩ := List.forall_mem_append.mp old
      exact List.forall_mem_append.mpr ⟨before,List.forall_mem_singleton.mpr (grow (List.forall_mem_singleton.mp last))⟩
    refine ⟨?_,?_,each packs.ops fun op => op,each packs.clean fun clean => clean_joined clean piece.clean,⟨n,?_⟩,
      each packs.fits fun _ => room⟩
    · intro table
      have before := packs.rows table
      simp only [List.flatMap_append,List.flatMap_singleton] at before ⊢
      rw [rowsOf_joined,← List.append_assoc,before]
    · have before := packs.agents
      simp only [List.flatMap_append,List.flatMap_singleton] at before ⊢
      rw [joined,← List.append_assoc,before]
    · rw [← names,List.map_append,List.map_append]
      rfl

theorem Packs.fold {name : Option MemberName} {more : List (String × ProjectEntry F)} {units : List (ProjectEntry F)}
    {state state' : List (ProjectEntry F) × ProjectEntry F}
    (packs : Packs form id base name units (state.1 ++ [state.2])) (pieces : ∀ unit ∈ more, Piece unit.2)
    (ok : more.foldlM (Snapshot.place form id base) state = .ok state') :
    Packs form id base name (units ++ more.map Prod.snd) (state'.1 ++ [state'.2]) := by
  induction more generalizing units state with
  | nil =>
    cases ok
    rw [List.map_nil,List.append_nil]
    exact packs
  | cons unit more ih =>
    rw [List.foldlM_cons] at ok
    obtain ⟨next,placed,ok⟩ := bind_ok ok
    have rest := ih (packs.place (pieces unit List.mem_cons_self) placed)
      (fun unit inside => pieces unit (List.mem_cons_of_mem _ inside)) ok
    rw [List.append_assoc] at rest
    exact rest

/-- The first unit that is too large for any part is refused, and nothing else is. -/
theorem fold_refuses {units : List (String × ProjectEntry F)} {state : List (ProjectEntry F) × ProjectEntry F}
    {e : String × String} : units.foldlM (Snapshot.place form id base) state = .error e ↔
      ∃ before unit after, units = before ++ unit :: after ∧
        (∀ unit ∈ before, estimate form id base unit.2 ≤ snapshotCap) ∧
        snapshotCap < estimate form id base unit.2 ∧ e = tooLarge unit.1 (estimate form id base unit.2) := by
  induction units generalizing state with
  | nil =>
    refine iff_of_false (fun other => by cases other) ?_
    rintro ⟨before,unit,after,split,_⟩
    exact List.append_ne_nil_of_right_ne_nil before (List.cons_ne_nil unit after) split.symm
  | cons unit units ih =>
    rw [List.foldlM_cons]
    cases placed : Snapshot.place form id base state unit with
    | error refused =>
      obtain ⟨large,rfl⟩ := place_error.mp placed
      constructor
      · intro same
        exact ⟨[],unit,units,rfl,by simp,large,(Except.error.inj same).symm⟩
      · rintro ⟨before,other,after,split,small,_,rfl⟩
        cases before with
        | nil =>
          obtain ⟨rfl,_⟩ := List.cons.inj split
          rfl
        | cons first before =>
          obtain ⟨rfl,_⟩ := List.cons.inj split
          exact absurd large (not_lt.mpr (small unit List.mem_cons_self))
    | ok next =>
      have fits := (place_ok placed).1
      refine ih.trans ⟨?_,?_⟩
      · rintro ⟨before,other,after,rfl,small,large,same⟩
        refine ⟨unit :: before,other,after,rfl,?_,large,same⟩
        intro u inside
        rcases List.mem_cons.mp inside with rfl | inside
        · exact fits
        · exact small u inside
      · rintro ⟨before,other,after,split,small,large,same⟩
        cases before with
        | nil =>
          obtain ⟨rfl,_⟩ := List.cons.inj split
          exact absurd large (not_lt.mpr fits)
        | cons first before =>
          obtain ⟨rfl,rfl⟩ := List.cons.inj split
          exact ⟨before,other,after,rfl,fun u inside => small u (List.mem_cons_of_mem _ inside),large,same⟩

end Packing

section Units
variable [Doubles F]

omit [Doubles F] in
theorem rowsOf_rowImage (table key : String) (row : SharedRow F) :
    rowsOf (rowImage table row) key = if table = key then [row] else [] := by
  rw [rowsOf,rowImage,Table.get?_insert]
  by_cases same : table = key
  · rw [if_pos same.symm,if_pos same]
    rfl
  · rw [if_neg (Ne.symm same),if_neg same]
    rfl

omit [Doubles F] in
theorem piece_rowImage (table : String) (row : SharedRow F) : Piece (rowImage table row) where
  op := rfl
  clean := by
    intro key changes found
    rw [rowImage,Table.get?_insert] at found
    split at found
    next =>
      cases found
      exact ⟨List.cons_ne_nil _ _,rfl⟩
    next => cases found
  nameless := rfl

omit [Doubles F] in
theorem piece_agentUnit (agent : AgentChangeEntry) : Piece (F := F) (agentUnit agent).2 := ⟨rfl,clean_empty,rfl⟩

theorem pieces (image : ProjectEntry F) : ∀ unit ∈ unitsOf image, Piece unit.2 := by
  intro unit inside
  rcases List.mem_append.mp inside with inside | inside
  · obtain ⟨t,_,inside⟩ := List.mem_flatMap.mp inside
    obtain ⟨row,_,rfl⟩ := List.mem_map.mp inside
    exact piece_rowImage t.1 row
  · obtain ⟨agent,_,rfl⟩ := List.mem_map.mp inside
    exact piece_agentUnit agent

theorem units_rows (image : ProjectEntry F) (key : String) :
    (((unitsOf image).map Prod.snd).flatMap fun unit => rowsOf unit key) = rowsOf image key := by
  have ofTable : ∀ t : String × TableChanges F,
      ((t.2.upsert.map (rowUnit t.1)).flatMap fun unit => rowsOf unit.2 key) = if t.1 = key then t.2.upsert else [] := by
    intro t
    rw [List.flatMap_map]
    simp only [rowUnit,rowsOf_rowImage]
    by_cases same : t.1 = key
    · simp only [if_pos same,List.flatMap_singleton']
    · simp only [if_neg same,List.flatMap_eq_nil_iff,implies_true]
  have ofAgents : ((image.agents.map agentUnit).flatMap fun unit => rowsOf (F := F) unit.2 key) = [] := by
    rw [List.flatMap_map,List.flatMap_eq_nil_iff]
    exact fun _ _ => rfl
  rw [List.flatMap_map,unitsOf,List.flatMap_append,ofAgents,List.append_nil,List.flatMap_assoc]
  simp only [ofTable]
  exact upserts_rows image.tables key

theorem units_agents (image : ProjectEntry F) :
    ((unitsOf image).map Prod.snd).flatMap ProjectEntry.agents = image.agents := by
  have ofTables : ((image.tables.rows.flatMap fun t => t.2.upsert.map (rowUnit t.1)).flatMap fun unit => unit.2.agents) = [] := by
    rw [List.flatMap_eq_nil_iff]
    intro unit inside
    obtain ⟨t,_,inside⟩ := List.mem_flatMap.mp inside
    obtain ⟨row,_,rfl⟩ := List.mem_map.mp inside
    rfl
  rw [List.flatMap_map,unitsOf,List.flatMap_append,ofTables,List.nil_append,List.flatMap_map]
  exact List.flatMap_singleton' image.agents

end Units

section Named
variable [Doubles F]

theorem escape_bytes (c : Char) : (Utf8.encode (Json.escape c)).length ≤ 12 := by
  have small : ∀ d : Char, d.utf8Size ≤ 4 := Char.utf8Size_le_four
  have pair : ∀ d : Char, (Utf8.encode ['\\',d]).length ≤ 5 := by
    intro d
    have := small d
    rw [Utf8.length_encode_cons,Utf8.length_encode_cons]
    show 1 + (d.utf8Size + 0) ≤ 5
    omega
  unfold Json.escape
  split_ifs
  iterate 7 exact le_trans (pair _) (by decide)
  · have high := small (Json.hex (c.toNat / 16))
    have low := small (Json.hex (c.toNat % 16))
    simp only [Utf8.length_encode_cons]
    show 1 + (1 + (1 + (1 + ((Json.hex (c.toNat / 16)).utf8Size + ((Json.hex (c.toNat % 16)).utf8Size + 0))))) ≤ 12
    omega
  · have := small c
    rw [Utf8.length_encode_cons]
    show c.utf8Size + 0 ≤ 12
    omega

theorem size_string_le (text : String) : (Json.string text : Json F).size ≤ 12 * text.toList.length + 2 := by
  have escaped : ∀ chars : List Char, (Utf8.encode (chars.flatMap Json.escape)).length ≤ 12 * chars.length := by
    intro chars
    induction chars with
    | nil => exact Nat.le_refl 0
    | cons c chars ih =>
      have first := escape_bytes c
      rw [List.flatMap_cons,Utf8.encode_append,List.length_append,List.length_cons]
      omega
  have inner := escaped text.toList
  have mark : '\x22'.utf8Size = 1 := rfl
  show (Utf8.encode (Json.quoteChars text.toList)).length ≤ _
  rw [Json.quoteChars,Utf8.length_encode_cons,Utf8.encode_append,List.length_append,Utf8.length_encode_cons,mark]
  show 1 + (_ + (1 + 0)) ≤ _
  omega

/-- The ids of snapshots are 32 characters, and a name that is stored has passed its check. -/
structure Named (id : String) (name : Option MemberName) : Prop where
  short : id.toList.length ≤ 32
  author : ∀ n ∈ name, n.author.toList.length ≤ 32
  shown : ∀ n ∈ name, n.displayName.toList.length ≤ 64

theorem named_of_valid {id : String} {name : Option MemberName} (short : id.toList.length ≤ 32)
    (valid : ∀ n ∈ name, Remote.validateMemberName n = .ok ()) : Named id name := by
  have parts : ∀ n ∈ name, n.author.toList.length = 32 ∧ n.displayName.toList.length ≤ 64 := by
    intro n named
    have checked := valid n named
    unfold Remote.validateMemberName at checked
    dsimp only at checked
    split at checked
    next => cases checked
    next sound =>
      simp only [not_or,not_not,not_lt] at sound
      exact ⟨sound.1,sound.2.2.2.2⟩
  exact ⟨short,fun n named => le_of_eq (parts n named).1,fun n named => (parts n named).2⟩

theorem size_nameValue (name : MemberName) : (nameValue name : Json F).ordered.size ≤
    12 * name.author.toList.length + 12 * name.displayName.toList.length + 31 := by
  have author := size_string_le (F := F) name.author
  have shown := size_string_le (F := F) name.displayName
  have keys : (Utf8.encode (Json.quote "author")).length = 8 ∧ (Utf8.encode (Json.quote "display_name")).length = 14 := ⟨rfl,rfl⟩
  have filled : Json.orderedFields [("author",(Json.string name.author : Json F)),("display_name",.string name.displayName)] [] ≠ [] :=
    Json.insertRow_filled _ _ _
  rw [nameValue,Json.ordered,Json.size_object filled,Json.weight_sorted (by simp)]
  simp only [Json.weight,List.map_cons,List.map_nil,List.sum_cons,List.sum_nil,keys.1,keys.2,Json.ordered]
  omega

variable (form : AgentForm F)

/-- A part with nothing but the name fits. -/
theorem named_fits {id : String} {name : Option MemberName} (named : Named id name) (base : Option Count) :
    estimate form id base { (emptyImage : ProjectEntry F) with memberName := name } ≤ snapshotCap := by
  have widest : (countValue (Fin.last _) : Json F).size = 20 := by
    rw [size_count]
    decide +kernel
  have own : (Json.string id : Json F).size ≤ 386 := le_trans (size_string_le id) (by have := named.short; omega)
  have op : (Json.string "shared.snapshot" : Json F).size = 17 := rfl
  have none_ : (tablesValue (∅ : Table String (TableChanges F))).ordered.size = 2 := rfl
  have keys : (Utf8.encode (Json.quote "snapshot_id")).length = 13 ∧ (Utf8.encode (Json.quote "part")).length = 6 ∧
      (Utf8.encode (Json.quote "parts")).length = 7 ∧ (Utf8.encode (Json.quote "supersedes_through")).length = 20 ∧
      (Utf8.encode (Json.quote "op")).length = 4 ∧ (Utf8.encode (Json.quote "tables")).length = 8 ∧
      (Utf8.encode (Json.quote "member_name")).length = 13 := ⟨rfl,rfl,rfl,rfl,rfl,rfl,rfl⟩
  have counts : Json.weight (((base.map fun _ => Fin.last _).map fun base : Count =>
      ("supersedes_through",(countValue base : Json F))).toList.map fun f => (f.1,f.2.ordered)) ≤ 42 := by
    cases base with
    | none => exact Nat.zero_le _
    | some base =>
      simp only [Option.map_some,Option.toList_some,List.map_cons,List.map_nil,Json.weight,List.sum_cons,List.sum_nil,
        keys.2.2.2.1]
      show 20 + (countValue (Fin.last _) : Json F).size + 2 + 0 ≤ 42
      omega
  have shown : Json.weight ((name.map fun name => ("member_name",(nameValue name : Json F))).toList.map fun f =>
      (f.1,f.2.ordered)) ≤ 1300 := by
    cases name with
    | none => exact Nat.zero_le _
    | some n =>
      have bytes := size_nameValue n (F := F)
      have author := named.author n rfl
      have text := named.shown n rfl
      simp only [Option.map_some,Option.toList_some,List.map_cons,List.map_nil,Json.weight,List.sum_cons,List.sum_nil,
        keys.2.2.2.2.2.2]
      omega
  rw [estimate,length_body]
  simp only [wireFields,imageFields,emptyImage,List.isEmpty_nil,if_true,List.map_append,Json.weight_append,
    List.map_cons,List.map_nil,List.append_nil]
  simp only [Json.weight,List.map_cons,List.map_nil,List.sum_cons,List.sum_nil,keys.1,keys.2.1,keys.2.2.1,
    keys.2.2.2.2.1,keys.2.2.2.2.2.1,none_] at counts shown ⊢
  simp only [countValue,Json.ordered] at counts shown widest ⊢
  rw [op,widest]
  simp only [snapshotCap]
  omega

theorem pack_packs {id : String} {image : ProjectEntry F} {base : Count} {images : List (ProjectEntry F)}
    (named : Named id image.memberName) (ok : pack form id image base = .ok images) :
    Packs form id (supersedes base) image.memberName ((unitsOf image).map Prod.snd) images := by
  obtain ⟨packed,folded,same⟩ := bind_ok ok
  cases same
  have start : Packs form id (supersedes base) image.memberName []
      ([] ++ [{ (emptyImage : ProjectEntry F) with memberName := image.memberName }]) := by
    exact ⟨fun _ => rfl,rfl,List.forall_mem_singleton.mpr rfl,List.forall_mem_singleton.mpr clean_empty,⟨0,rfl⟩,
      List.forall_mem_singleton.mpr (named_fits form named _)⟩
  exact Packs.fold (by exact start) (pieces image) folded

/-- A partition is refused exactly for the first row or agent that is too large alone. -/
theorem partition_refuses {id : String} {image : ProjectEntry F} {base : Count} {e : String × String} :
    partition form id image base = .error e ↔ ∃ before unit after, unitsOf image = before ++ unit :: after ∧
      (∀ unit ∈ before, estimate form id (supersedes base) unit.2 ≤ snapshotCap) ∧
      snapshotCap < estimate form id (supersedes base) unit.2 ∧
      e = tooLarge unit.1 (estimate form id (supersedes base) unit.2) := by
  have folded : partition form id image base = .error e ↔
      (unitsOf image).foldlM (place form id (supersedes base))
        ([],{ (emptyImage : ProjectEntry F) with memberName := image.memberName }) = .error e := by
    rw [partition,pack]
    cases (unitsOf image).foldlM (place form id (supersedes base))
        ([],{ (emptyImage : ProjectEntry F) with memberName := image.memberName }) with
    | error refused =>
      constructor <;>
      · intro same
        cases same
        rfl
    | ok packed => exact iff_of_false (fun other => by cases other) (fun other => by cases other)
  exact folded.trans fold_refuses

/-- No part of a snapshot is larger than the cap, with its own numbers and what it supersedes in it. -/
theorem partition_fits {id : String} {image : ProjectEntry F} {base : Count} {bodies : List Utf8.Bytes}
    (named : Named id image.memberName) (ok : partition form id image base = .ok bodies) :
    ∀ bytes ∈ bodies, bytes.length ≤ snapshotCap := by
  obtain ⟨images,packed,same⟩ := bind_ok ok
  cases same
  have packs := pack_packs form named packed
  intro bytes inside
  obtain ⟨i,inside',rfl⟩ := List.mem_mapIdx.mp inside
  exact le_trans (body_le_estimate form id _ _ _ _) (packs.fits _ (List.getElem_mem inside'))

end Named

namespace Studio

def id : String := "0123456789abcdef0123456789abcdef"

def author : String := "01010101010101010101010101010101"

def row : SharedRow Empty := ⟨[("project_id",.string "p1")],List.pairwise_singleton _ _⟩

/-- One project and a member name. -/
def image : ProjectEntry Empty := { rowImage "project" row with memberName := some ⟨author,"Studio"⟩ }

/-- No agent is written here. -/
def form : AgentForm Empty := ⟨fun agent => .string agent.agentId⟩

theorem valid : ∀ name ∈ image.memberName, Remote.validateMemberName name = .ok () := by
  rintro name ⟨⟩
  decide +kernel

theorem cut : ∃ bodies, partition form id image 5 = .ok bodies := by
  have taken : (partition form id image 5).toOption.isSome = true := by decide +kernel
  cases made : partition form id image 5 with
  | ok bodies => exact ⟨bodies,rfl⟩
  | error e =>
    rw [made] at taken
    cases taken

theorem studio_fits : ∃ bodies, partition form id image 5 = .ok bodies ∧ ∀ bytes ∈ bodies, bytes.length ≤ snapshotCap := by
  obtain ⟨bodies,made⟩ := cut
  exact ⟨bodies,made,partition_fits form (named_of_valid (by decide) valid) made⟩

end Studio

end Entorhinal.Snapshot
