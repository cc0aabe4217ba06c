import Mathlib.Algebra.Order.Ring.Int
import Mathlib.Data.List.Basic
import Mathlib.Logic.Relation
import Mathlib.Tactic.Common

/-! Searches of a finite directed graph: the nodes that a queue reaches, and a depth-first
walk that ends at a cycle. -/
namespace Entorhinal.Search

/-- Every node with a successor is listed. -/
structure Graph (α : Type*) where
  nodes : List α
  next : α → List α
  listed : ∀ a, next a ≠ [] → a ∈ nodes

namespace Graph

variable {α : Type*} (g : Graph α)

def Edge (a b : α) : Prop := b ∈ g.next a

/-- More than the successors of any one node. -/
def degrees : Nat := (g.nodes.map fun a => (g.next a).length).sum + 1

theorem le_sum {items : List Nat} {n : Nat} (member : n ∈ items) : n ≤ items.sum := by
  induction items with
  | nil => cases member
  | cons first items ih =>
    rw [List.sum_cons]
    rcases List.mem_cons.mp member with rfl | later
    · exact Nat.le_add_right ..
    · exact Nat.le_add_left_of_le (ih later)

theorem next_lt (a : α) : (g.next a).length < g.degrees := by
  by_cases none : g.next a = []
  · rw [none]
    exact Nat.succ_pos _
  · exact Nat.lt_succ_of_le (le_sum (List.mem_map_of_mem (g.listed a none)))

theorem countP_lt {β : Type*} {p q : β → Bool} {items : List β} {b : β} (fewer : ∀ x, p x = true → q x = true)
    (member : b ∈ items) (dropped : p b = false) (counted : q b = true) : items.countP p < items.countP q := by
  induction items with
  | nil => cases member
  | cons first items ih =>
    have rest := List.countP_mono_left (l := items) fun x _ => fewer x
    rw [List.countP_cons,List.countP_cons]
    rcases List.mem_cons.mp member with rfl | later
    · rw [dropped,counted,if_neg Bool.false_ne_true,if_pos rfl]
      omega
    · have := ih later
      by_cases kept : p first = true
      · rw [if_pos kept,if_pos (fewer first kept)]
        omega
      · rw [if_neg kept]
        omega

/-- The node that an entry of the stack leaves. -/
def leaving : α × Bool → Option α
  | (a,true) => some a
  | (_,false) => none

/-- A depth-first walk: the nodes still to enter or to leave, those entered and not
left, innermost first, and those left. -/
structure Walk (α : Type*) where
  stack : List (α × Bool)
  path : List α
  done : List α
  leaves : stack.filterMap leaving = path

def start (a : α) : Walk α := ⟨[(a,false)],[],[],rfl⟩

/-- The successors are entered, the first of them first, before the node is left. -/
def enter (rest : List (α × Bool)) (a : α) : List (α × Bool) :=
  (g.next a).map (·,false) ++ (a,true) :: rest

theorem enter_leaves {rest : List (α × Bool)} {path : List α} {a : α}
    (leaves : rest.filterMap leaving = path) : (g.enter rest a).filterMap leaving = a :: path := by
  have entering : ((g.next a).map (·,false)).filterMap leaving = [] := by
    rw [List.filterMap_map]
    exact List.filterMap_eq_nil_iff.mpr fun _ _ => rfl
  rw [enter,List.filterMap_append,entering,List.nil_append]
  show a :: rest.filterMap leaving = _
  rw [leaves]

/-- Two turns for each node to enter, one for each to leave. -/
def turn : α × Bool → Nat
  | (_,true) => 1
  | (_,false) => 2

def turns (stack : List (α × Bool)) : Nat := (stack.map turn).sum

theorem turns_enter (rest : List (α × Bool)) (a : α) :
    turns (g.enter rest a) = 2 * (g.next a).length + (1 + turns rest) := by
  have each (successors : List α) : turns (successors.map (·,false)) = 2 * successors.length := by
    induction successors with
    | nil => rfl
    | cons b bs ih =>
      rw [List.map_cons,List.length_cons]
      show 2 + turns (bs.map (·,false)) = _
      rw [ih]
      omega
  rw [turns,enter,List.map_append,List.sum_append]
  exact congrArg (· + (1 + turns rest)) (each (g.next a))

/-- A node is well-founded when every path from it ends. -/
abbrev Founded (a : α) : Prop := Acc (fun b a => g.Edge a b) a

theorem not_rel_self {r : α → α → Prop} {a : α} (founded : Acc r a) : ¬ r a a := by
  induction founded with
  | intro a _ ih => exact fun self => ih a self self

/-- What a node waits for before it is left is done or above it in the stack. -/
def Waits (w : Walk α) : Prop :=
  ∀ above a below, w.stack = above ++ (a,true) :: below →
    ∀ b ∈ g.next a, b ∈ w.done ∨ ∃ leave, (b,leave) ∈ above

theorem start_waits (a : α) : g.Waits (start a) := by
  intro above b below shape
  rcases above with _ | ⟨first,above⟩
  · cases shape
  · cases above <;> cases shape

variable [DecidableEq α]

def unseen (seen : List α) : Nat := g.nodes.countP fun a => decide (a ∉ seen)

theorem unseen_le {seen seen' : List α} (grown : ∀ a ∈ seen, a ∈ seen') : g.unseen seen' ≤ g.unseen seen :=
  List.countP_mono_left fun a _ => by
    simp only [decide_eq_true_eq]
    exact fun fresh inside => fresh (grown a inside)

theorem unseen_lt {seen : List α} {a : α} (node : a ∈ g.nodes) (fresh : a ∉ seen) :
    g.unseen (a :: seen) < g.unseen seen := by
  refine countP_lt (fun x => ?_) node (decide_eq_false (not_not.mpr List.mem_cons_self)) (decide_eq_true fresh)
  simp only [decide_eq_true_eq]
  exact fun apart inside => apart (List.mem_cons_of_mem _ inside)

/-- A node seen anew makes room for its successors. -/
theorem unseen_room {seen : List α} {a : α} (fresh : a ∉ seen) (cost : Nat) :
    g.unseen (a :: seen) * (cost * g.degrees) + cost * (g.next a).length ≤
      g.unseen seen * (cost * g.degrees) := by
  by_cases node : a ∈ g.nodes
  · have fewer := Nat.mul_le_mul_right (cost * g.degrees) (Nat.succ_le_of_lt (g.unseen_lt node fresh))
    have wide := Nat.mul_le_mul_left cost (Nat.le_of_lt (g.next_lt a))
    rw [Nat.succ_mul] at fewer
    omega
  · have none : g.next a = [] := by
      by_contra some
      exact node (g.listed a some)
    rw [none,List.length_nil,Nat.mul_zero,Nat.add_zero]
    exact Nat.mul_le_mul_right _ (g.unseen_le fun x inside => List.mem_cons_of_mem a inside)

/-- The nodes of a queue, and the successors of each node the first time it is met. -/
def reached (visited queue : List α) : List α :=
  match queue with
  | [] => visited
  | a :: queue =>
    if a ∈ visited then reached visited queue else reached (a :: visited) (queue ++ g.next a)
termination_by g.unseen visited * (1 * g.degrees) + queue.length
decreasing_by
  · rw [List.length_cons]
    omega
  · rename_i fresh
    have := g.unseen_room fresh 1
    rw [List.length_append,List.length_cons]
    omega

theorem subset_reached {visited queue : List α} : ∀ a, a ∈ visited ∨ a ∈ queue → a ∈ g.reached visited queue := by
  fun_induction reached with
  | case1 visited => exact fun a inside => inside.resolve_right List.not_mem_nil
  | case2 visited a queue seen ih =>
    rintro b (before | next)
    · exact ih b (.inl before)
    · rcases List.mem_cons.mp next with rfl | later
      · exact ih _ (.inl seen)
      · exact ih b (.inr later)
  | case3 visited a queue fresh ih =>
    rintro b (before | next)
    · exact ih b (.inl (List.mem_cons_of_mem _ before))
    · rcases List.mem_cons.mp next with rfl | later
      · exact ih _ (.inl List.mem_cons_self)
      · exact ih b (.inr (List.mem_append_left _ later))

/-- Successors of what was visited are visited or wait in the queue. -/
theorem reached_closed {visited queue : List α}
    (waits : ∀ a ∈ visited, ∀ b ∈ g.next a, b ∈ visited ∨ b ∈ queue) :
    ∀ a ∈ g.reached visited queue, ∀ b ∈ g.next a, b ∈ g.reached visited queue := by
  fun_induction reached with
  | case1 visited => exact fun a inside b edge => (waits a inside b edge).resolve_right List.not_mem_nil
  | case2 visited a queue seen ih =>
    refine ih fun x inside b edge => ?_
    rcases waits x inside b edge with before | next
    · exact .inl before
    · rcases List.mem_cons.mp next with rfl | later
      · exact .inl seen
      · exact .inr later
  | case3 visited a queue fresh ih =>
    refine ih fun x inside b edge => ?_
    rcases List.mem_cons.mp inside with rfl | old
    · exact .inr (List.mem_append_right _ edge)
    · rcases waits x old b edge with before | next
      · exact .inl (List.mem_cons_of_mem _ before)
      · rcases List.mem_cons.mp next with rfl | later
        · exact .inl List.mem_cons_self
        · exact .inr (List.mem_append_left _ later)

/-- Whatever a path from the queue leads to is reached. -/
theorem mem_reached {queue : List α} {a b : α} (start : a ∈ queue) (path : Relation.ReflTransGen g.Edge a b) :
    b ∈ g.reached [] queue := by
  induction path with
  | refl => exact g.subset_reached a (.inr start)
  | tail _ edge ih =>
    exact g.reached_closed (fun x none => absurd none List.not_mem_nil) _ ih _ edge

/-- Walks to the end of the stack, or to a node that is on the path to itself. -/
def walk : Walk α → Except (List α) Unit
  | ⟨[],_,_,_⟩ => .ok ()
  | ⟨(a,true) :: rest,path,done,leaves⟩ =>
    walk ⟨rest,path.tail,a :: done,by rw [← leaves]; rfl⟩
  | ⟨(a,false) :: rest,path,done,leaves⟩ =>
    if a ∈ path then .error (path.reverse.dropWhile (· != a) ++ [a])
    else if a ∈ done then walk ⟨rest,path,done,leaves⟩
    else walk ⟨g.enter rest a,a :: path,done,g.enter_leaves leaves⟩
termination_by w => g.unseen (w.path ++ w.done) * (2 * g.degrees) + turns w.stack
decreasing_by
  · subst leaves
    have same : g.unseen (rest.filterMap leaving ++ a :: done) ≤ g.unseen (a :: rest.filterMap leaving ++ done) :=
      g.unseen_le fun b => by
        simp only [List.mem_append,List.mem_cons]
        tauto
    have kept := Nat.mul_le_mul_right (2 * g.degrees) same
    show g.unseen (rest.filterMap leaving ++ a :: done) * _ + turns rest <
      g.unseen (a :: rest.filterMap leaving ++ done) * _ + (1 + turns rest)
    omega
  · show _ < _ + (2 + turns rest)
    omega
  · rename_i outside fresh
    have unmet : a ∉ path ++ done := by
      rw [List.mem_append]
      exact not_or.mpr ⟨outside,fresh⟩
    have room := g.unseen_room unmet 2
    show g.unseen (a :: (path ++ done)) * _ + turns (g.enter rest a) < _ + (2 + turns rest)
    rw [g.turns_enter]
    omega

/-- A walk that ends has entered only nodes that are on no cycle. -/
theorem walk_founded {w : Walk α} (waits : g.Waits w) (founded : ∀ a ∈ w.done, g.Founded a)
    (ok : g.walk w = .ok ()) : ∀ a, a ∈ w.done ∨ (∃ leave, (a,leave) ∈ w.stack) → g.Founded a := by
  fun_induction walk with
  | case1 done =>
    rintro a (left | ⟨leave,none⟩)
    · exact founded a left
    · exact absurd none List.not_mem_nil
  | case2 a rest done ih =>
    have ends : g.Founded a := by
      refine Acc.intro a fun b edge => ?_
      rcases waits [] a rest rfl b edge with left | ⟨leave,none⟩
      · exact founded b left
      · exact absurd none List.not_mem_nil
    have next := ih (fun above x below shape b edge => by
      rcases waits ((a,true) :: above) x below (by rw [List.cons_append]; exact congrArg _ shape) b edge
        with left | ⟨leave,inside⟩
      · exact .inl (List.mem_cons_of_mem _ left)
      · rcases List.mem_cons.mp inside with same | later
        · cases same
          exact .inl List.mem_cons_self
        · exact .inr ⟨leave,later⟩) (fun b left => by
      rcases List.mem_cons.mp left with rfl | before
      · exact ends
      · exact founded b before) ok
    rintro b (left | ⟨leave,inside⟩)
    · exact founded b left
    · rcases List.mem_cons.mp inside with same | later
      · cases same
        exact ends
      · exact next b (.inr ⟨leave,later⟩)
  | case3 a rest done cycle => cases ok
  | case4 a rest done left _ ih =>
    have next := ih (fun above x below shape b edge => by
      rcases waits ((a,false) :: above) x below (by rw [List.cons_append]; exact congrArg _ shape) b edge
        with left | ⟨leave,inside⟩
      · exact .inl left
      · rcases List.mem_cons.mp inside with same | later
        · cases same
          exact .inl left
        · exact .inr ⟨leave,later⟩) founded ok
    rintro b (before | ⟨leave,inside⟩)
    · exact founded b before
    · rcases List.mem_cons.mp inside with same | later
      · cases same
        exact founded a left
      · exact next b (.inr ⟨leave,later⟩)
  | case5 a rest done outside fresh ih =>
    have entered (b : α) : (∃ leave, (b,leave) ∈ (a,false) :: rest) → ∃ leave, (b,leave) ∈ g.enter rest a := by
      rintro ⟨leave,inside⟩
      rcases List.mem_cons.mp inside with same | later
      · cases same
        exact ⟨true,List.mem_append_right _ List.mem_cons_self⟩
      · exact ⟨leave,List.mem_append_right _ (List.mem_cons_of_mem _ later)⟩
    have next := ih (fun above x below shape b edge => by
      have own (same : a = x) : (b,false) ∈ (g.next a).map (·,false) :=
        List.mem_map.mpr ⟨b,same ▸ edge,rfl⟩
      rcases List.append_eq_append_iff.mp shape with ⟨more,rfl,tail⟩ | ⟨more,whole,tail⟩
      · rcases more with _ | ⟨first,more⟩
        · cases tail
          exact .inr ⟨false,List.mem_append_left _ (own rfl)⟩
        · cases tail
          rcases waits ((a,false) :: more) x below rfl b edge with left | ⟨leave,inside⟩
          · exact .inl left
          · right
            rcases List.mem_cons.mp inside with same | later
            · cases same
              exact ⟨true,List.mem_append_right _ List.mem_cons_self⟩
            · exact ⟨leave,List.mem_append_right _ (List.mem_cons_of_mem _ later)⟩
      · rcases more with _ | ⟨first,more⟩
        · cases tail
          rw [List.append_nil] at whole
          exact .inr ⟨false,whole ▸ own rfl⟩
        · cases tail
          have entering : (x,true) ∈ (g.next a).map (·,false) :=
            whole ▸ List.mem_append_right _ List.mem_cons_self
          obtain ⟨_,_,same⟩ := List.mem_map.mp entering
          cases same) founded ok
    rintro b (before | inside)
    · exact founded b before
    · exact next b (.inr (entered b inside))

/-- A walk from a node that ends without a cycle meets none on any path from it. -/
theorem walk_acyclic {a b : α} (ok : g.walk (start a) = .ok ()) (path : Relation.ReflTransGen g.Edge a b) :
    ¬ Relation.TransGen g.Edge b b := by
  have founded : g.Founded a := g.walk_founded (g.start_waits a)
    (fun _ none => absurd none List.not_mem_nil) ok a (.inr ⟨false,List.mem_cons_self⟩)
  have along : g.Founded b := by
    induction path with
    | refl => exact founded
    | tail _ edge ih => exact ih.inv edge
  intro cycle
  exact not_rel_self along.transGen cycle.swap

end Graph
end Entorhinal.Search
