import Mathlib.Algebra.Order.Ring.Int
import Mathlib.Data.List.Basic
import Mathlib.Data.List.Nodup
import Mathlib.Data.List.Perm.Subperm
import Mathlib.Order.WithBot

/-! Paging by keys. A page holds the rows between two bounds in the order of their keys, and
the next page goes on from the upper bound; rows come and go between the pages. -/
namespace Entorhinal.Paging

variable {κ ρ : Type} [LinearOrder κ]

/-- A key, the place before all keys or the one after them. -/
abbrev Bound (κ : Type) := WithBot (WithTop κ)

def Bound.key (k : κ) : Bound κ := ((k : WithTop κ) : WithBot (WithTop κ))

@[simp] theorem Bound.key_lt {a b : κ} : Bound.key a < Bound.key b ↔ a < b :=
  WithBot.coe_lt_coe.trans WithTop.coe_lt_coe

@[simp] theorem Bound.key_le {a b : κ} : Bound.key a ≤ Bound.key b ↔ a ≤ b :=
  WithBot.coe_le_coe.trans WithTop.coe_le_coe

@[simp] theorem Bound.key_bottom (a : κ) : ⊥ < Bound.key a := WithBot.bot_lt_coe _

/-- The rows stand in the order of their keys, no two under one. -/
def Ordered (key : ρ → κ) (rows : List ρ) : Prop := rows.Pairwise fun a b => key a < key b

def within (low high : Bound κ) (k : κ) : Prop := low < Bound.key k ∧ Bound.key k ≤ high

instance (low high : Bound κ) (k : κ) : Decidable (within low high k) :=
  inferInstanceAs (Decidable (_ ∧ _))

def between (key : ρ → κ) (low high : Bound κ) (rows : List ρ) : List ρ :=
  rows.filter fun r => decide (within low high (key r))

/-- Of rows in order, the first few are those up to the last of them. -/
theorem Ordered.take_between {key : ρ → κ} {rows : List ρ} {low : Bound κ} {limit : Nat} {last : ρ}
    (ordered : Ordered key rows) (after : ∀ r ∈ rows, low < Bound.key (key r))
    (ends : (rows.take limit).getLast? = some last) :
    rows.take limit = between key low (Bound.key (key last)) rows := by
  obtain ⟨front,shape⟩ : ∃ front, rows.take limit = front ++ [last] :=
    ⟨_,(List.dropLast_append_getLast? last ends).symm⟩
  have whole : rows = (front ++ [last]) ++ rows.drop limit := by rw [← shape,List.take_append_drop]
  have taken : between key low (Bound.key (key last)) (front ++ [last]) = front ++ [last] := by
    apply List.filter_eq_self.mpr
    intro r member
    have inside : r ∈ rows := whole ▸ List.mem_append_left _ member
    have upto : key r ≤ key last := by
      rcases List.mem_append.mp member with earlier | final
      · have split := (List.pairwise_append.mp (whole ▸ ordered)).1
        exact ((List.pairwise_append.mp split).2.2 r earlier last (List.mem_singleton_self _)).le
      · exact le_of_eq (congrArg key (List.mem_singleton.mp final))
    exact decide_eq_true ⟨after r inside,Bound.key_le.mpr upto⟩
  have left : between key low (Bound.key (key last)) (rows.drop limit) = [] := by
    apply List.filter_eq_nil_iff.mpr
    intro r member
    have beyond := (List.pairwise_append.mp (whole ▸ ordered)).2.2 last
      (List.mem_append_right _ (List.mem_singleton_self _)) r member
    simp only [decide_eq_true_eq]
    intro ⟨_,upto⟩
    exact absurd (Bound.key_le.mp upto) (not_le_of_gt beyond)
  have joined : between key low (Bound.key (key last)) rows =
      between key low (Bound.key (key last)) (front ++ [last]) ++
        between key low (Bound.key (key last)) (rows.drop limit) := by
    rw [between,between,between,← List.filter_append,← whole]
  rw [joined,taken,left,List.append_nil,shape]

theorem between_cons_inside {key : ρ → κ} {low high : Bound κ} {r : ρ} {rows : List ρ}
    (inside : within low high (key r)) : between key low high (r :: rows) = r :: between key low high rows :=
  List.filter_cons_of_pos (decide_eq_true inside)

theorem between_cons_outside {key : ρ → κ} {low high : Bound κ} {r : ρ} {rows : List ρ}
    (outside : ¬within low high (key r)) : between key low high (r :: rows) = between key low high rows :=
  List.filter_cons_of_neg (by rw [decide_eq_true_eq]; exact outside)

/-- Of rows in order, those up to a middle and those after it. -/
theorem Ordered.between_append {key : ρ → κ} {rows : List ρ} {low middle high : Bound κ} (ordered : Ordered key rows)
    (up : low ≤ middle) (on : middle ≤ high) :
    between key low middle rows ++ between key middle high rows = between key low high rows := by
  induction rows with
  | nil => rfl
  | cons r rows ih =>
    obtain ⟨after,ordered⟩ := List.pairwise_cons.mp ordered
    by_cases upto : Bound.key (key r) ≤ middle
    · have none_ : ¬within middle high (key r) := fun inside => absurd inside.1 (not_lt_of_ge upto)
      have same : within low middle (key r) ↔ within low high (key r) :=
        ⟨fun inside => ⟨inside.1,inside.2.trans on⟩,fun inside => ⟨inside.1,upto⟩⟩
      by_cases inside : within low high (key r)
      · rw [between_cons_inside (same.mpr inside),between_cons_outside none_,between_cons_inside inside,
          List.cons_append,ih ordered]
      · rw [between_cons_outside (fun inner => inside (same.mp inner)),between_cons_outside none_,
          between_cons_outside inside,ih ordered]
    · have beyond := lt_of_not_ge upto
      have empty : between key low middle (r :: rows) = [] := by
        apply List.filter_eq_nil_iff.mpr
        intro s member
        rw [decide_eq_true_eq]
        intro inside
        rcases List.mem_cons.mp member with rfl | member
        · exact upto inside.2
        · exact absurd (inside.2.trans_lt (beyond.trans (Bound.key_lt.mpr (after s member)))) (lt_irrefl _)
      rw [empty,List.nil_append]
      apply List.filter_congr
      intro s member
      rw [decide_eq_decide]
      have above : middle < Bound.key (key s) := by
        rcases List.mem_cons.mp member with rfl | member
        · exact beyond
        · exact beyond.trans (Bound.key_lt.mpr (after s member))
      exact ⟨fun inside => ⟨up.trans_lt above,inside.2⟩,fun inside => ⟨above,inside.2⟩⟩

/-- One page: the rows that were there, and the bounds it was read between. -/
structure Turn (κ ρ : Type) where
  rows : List ρ
  low : Bound κ
  high : Bound κ

def Turn.returned (key : ρ → κ) (t : Turn κ ρ) : List ρ := between key t.low t.high t.rows

def returned (key : ρ → κ) (turns : List (Turn κ ρ)) : List ρ := turns.flatMap (Turn.returned key)

/-- Each page goes on where the one before it stopped. -/
def Chained : Bound κ → Bound κ → List (Turn κ ρ) → Prop
  | low,high,[] => low = high
  | low,high,t :: later => t.low = low ∧ t.low ≤ t.high ∧ Chained t.high high later

theorem Chained.le {low high : Bound κ} {turns : List (Turn κ ρ)} (chained : Chained low high turns) : low ≤ high := by
  induction turns generalizing low with
  | nil => exact le_of_eq chained
  | cons t turns ih =>
    obtain ⟨rfl,up,rest⟩ := chained
    exact le_trans up (ih rest)

theorem mem_returned {key : ρ → κ} {t : Turn κ ρ} {r : ρ} :
    r ∈ t.returned key ↔ r ∈ t.rows ∧ within t.low t.high (key r) := by
  rw [Turn.returned,between,List.mem_filter,decide_eq_true_eq]

/-- What a walk returned lies between its bounds. -/
theorem Chained.within {key : ρ → κ} {low high : Bound κ} {turns : List (Turn κ ρ)} (chained : Chained low high turns)
    {r : ρ} (member : r ∈ returned key turns) : within low high (key r) := by
  induction turns generalizing low with
  | nil => cases member
  | cons t turns ih =>
    obtain ⟨rfl,up,rest⟩ := chained
    rw [returned,List.flatMap_cons,List.mem_append] at member
    rcases member with first | later
    · obtain ⟨above,upto⟩ := (mem_returned.mp first).2
      exact ⟨above,le_trans upto (Chained.le rest)⟩
    · obtain ⟨above,upto⟩ := ih rest later
      exact ⟨lt_of_le_of_lt up above,upto⟩

/-- A walk returns rows in the order of their keys, no key twice. -/
theorem Chained.ordered {key : ρ → κ} {low high : Bound κ} {turns : List (Turn κ ρ)} (chained : Chained low high turns)
    (each : ∀ t ∈ turns, Ordered key t.rows) : Ordered key (returned key turns) := by
  induction turns generalizing low with
  | nil => exact .nil
  | cons t turns ih =>
    obtain ⟨rfl,_,rest⟩ := chained
    rw [Ordered,returned,List.flatMap_cons,List.pairwise_append]
    refine ⟨(each t List.mem_cons_self).filter _,ih rest fun t member => each t (List.mem_cons_of_mem _ member),?_⟩
    intro a first b later
    have upto := (mem_returned.mp first).2.2
    have above := (Chained.within rest later).1
    exact Bound.key_lt.mp (lt_of_le_of_lt upto above)

/-- A key that is there at every page of a walk is returned by it, from one of the pages. -/
theorem Chained.complete {key : ρ → κ} {low high : Bound κ} {turns : List (Turn κ ρ)} (chained : Chained low high turns)
    {k : κ} (inside : Paging.within low high k) (present : ∀ t ∈ turns, ∃ r ∈ t.rows, key r = k) :
    ∃ t ∈ turns, ∃ r ∈ t.returned key, key r = k := by
  induction turns generalizing low with
  | nil =>
    obtain rfl : low = high := chained
    exact absurd (lt_of_lt_of_le inside.1 inside.2) (lt_irrefl _)
  | cons t turns ih =>
    obtain ⟨rfl,_,rest⟩ := chained
    by_cases upto : Bound.key k ≤ t.high
    · obtain ⟨r,there,rfl⟩ := present t List.mem_cons_self
      exact ⟨t,List.mem_cons_self,r,mem_returned.mpr ⟨there,inside.1,upto⟩,rfl⟩
    · obtain ⟨t',member,found⟩ := ih rest ⟨lt_of_not_ge upto,inside.2⟩
        fun t member => present t (List.mem_cons_of_mem _ member)
      exact ⟨t',List.mem_cons_of_mem _ member,found⟩

theorem Ordered.nodup {key : ρ → κ} {rows : List ρ} (ordered : Ordered key rows) : (rows.map key).Nodup :=
  List.pairwise_map.mpr (ordered.imp fun less same => less.ne same)

/-- A walk over pages that all return something, among keys that were there at first, is no
longer than these. -/
theorem Chained.bounded {key : ρ → κ} {low high : Bound κ} {turns : List (Turn κ ρ)} (chained : Chained low high turns)
    (each : ∀ t ∈ turns, Ordered key t.rows) (keys : List κ) (among : ∀ t ∈ turns, ∀ r ∈ t.rows, key r ∈ keys)
    (filled : ∀ t ∈ turns, t.returned key ≠ []) : turns.length ≤ keys.length := by
  have many : ∀ turns : List (Turn κ ρ), (∀ t ∈ turns, t.returned key ≠ []) →
      turns.length ≤ (returned key turns).length := by
    intro turns filled
    induction turns with
    | nil => exact Nat.le_refl 0
    | cons t turns ih =>
      have first := List.length_pos_of_ne_nil (filled t List.mem_cons_self)
      have rest := ih fun t member => filled t (List.mem_cons_of_mem _ member)
      rw [returned,List.flatMap_cons,List.length_append,List.length_cons]
      rw [returned] at rest
      omega
  have distinct := (chained.ordered each).nodup
  have known : ∀ k ∈ (returned key turns).map key, k ∈ keys := by
    intro k member
    obtain ⟨r,back,rfl⟩ := List.mem_map.mp member
    obtain ⟨t,listed,own⟩ := List.mem_flatMap.mp back
    exact among t listed r (mem_returned.mp own).1
  have few := (distinct.subperm known).length_le
  rw [List.length_map] at few
  exact le_trans (many turns filled) few

section LookAhead

/-- A page of at most `limit` of the rows found, one row ahead of which says whether another
page follows, and from where. -/
def lookAhead {γ : Type} (cursorOf : ρ → γ) (limit : Nat) (found : List ρ) : List ρ × Option γ :=
  if limit < found.length then (found.take limit,(found.take limit).getLast?.map cursorOf) else (found,none)

/-- Where a page stops: at its cursor, or after all keys. -/
def stop {γ : Type} (boundOf : γ → Bound κ) (next : Option γ) : Bound κ := (next.map boundOf).getD ⊤

theorem lookAhead_length {γ : Type} (cursorOf : ρ → γ) (limit : Nat) (found : List ρ) :
    (lookAhead cursorOf limit found).1.length ≤ limit := by
  unfold lookAhead
  split
  next => exact List.length_take_le _ _
  next few => exact Nat.le_of_not_lt few

/-- A cursor that is another one written out. -/
theorem lookAhead_map {γ δ : Type} (cursorOf : ρ → γ) (write : γ → δ) (limit : Nat) (found : List ρ) :
    lookAhead (fun r => write (cursorOf r)) limit found =
      ((lookAhead cursorOf limit found).1,(lookAhead cursorOf limit found).2.map write) := by
  unfold lookAhead
  split
  next => rw [Option.map_map]; rfl
  next => rfl

theorem lookAhead_last {γ : Type} {cursorOf : ρ → γ} {limit : Nat} {found : List ρ} {cursor : γ}
    (next : (lookAhead cursorOf limit found).2 = some cursor) :
    ∃ r, (lookAhead cursorOf limit found).1.getLast? = some r ∧ cursorOf r = cursor := by
  unfold lookAhead at next ⊢
  split at next
  next more =>
    rw [if_pos more]
    exact Option.map_eq_some_iff.mp next
  next => cases next

omit [LinearOrder κ] in
/-- A cursor names the last row of its page. -/
theorem lookAhead_cursor {γ : Type} {key : ρ → κ} {cursorOf : ρ → γ} {boundOf : γ → Bound κ}
    (faithful : ∀ r, boundOf (cursorOf r) = Bound.key (key r)) {limit : Nat} {found : List ρ} {cursor : γ}
    (next : (lookAhead cursorOf limit found).2 = some cursor) :
    ∃ r ∈ (lookAhead cursorOf limit found).1, boundOf cursor = Bound.key (key r) := by
  obtain ⟨last,ends,rfl⟩ := lookAhead_last next
  exact ⟨last,List.mem_of_getLast? ends,faithful last⟩

/-- A page that looks one row ahead is what lies between its two bounds. -/
theorem lookAhead_between {γ : Type} {key : ρ → κ} {cursorOf : ρ → γ} {boundOf : γ → Bound κ}
    (faithful : ∀ r, boundOf (cursorOf r) = Bound.key (key r)) {rows : List ρ} (ordered : Ordered key rows)
    {low : Bound κ} {limit : Nat} (some_ : 1 ≤ limit) :
    (lookAhead cursorOf limit ((between key low ⊤ rows).take (limit + 1))).1 =
        between key low (stop boundOf (lookAhead cursorOf limit ((between key low ⊤ rows).take (limit + 1))).2) rows ∧
      (∀ r ∈ (lookAhead cursorOf limit ((between key low ⊤ rows).take (limit + 1))).1, low < Bound.key (key r)) ∧
      ((lookAhead cursorOf limit ((between key low ⊤ rows).take (limit + 1))).2.isSome = true →
        (lookAhead cursorOf limit ((between key low ⊤ rows).take (limit + 1))).1 ≠ []) := by
  have after : ∀ r ∈ between key low ⊤ rows, low < Bound.key (key r) := by
    intro r member
    rw [between,List.mem_filter,decide_eq_true_eq] at member
    exact member.2.1
  unfold lookAhead
  split
  next more =>
    have short : ((between key low ⊤ rows).take (limit + 1)).take limit = (between key low ⊤ rows).take limit := by
      rw [List.take_take,Nat.min_eq_left (Nat.le_succ limit)]
    have filled : (between key low ⊤ rows).take limit ≠ [] := by
      intro empty
      have := congrArg List.length empty
      rw [List.length_take] at more this
      simp only [List.length_nil] at this
      omega
    obtain ⟨last,ends⟩ : ∃ last, ((between key low ⊤ rows).take limit).getLast? = some last :=
      ⟨_,List.getLast?_eq_some_getLast filled⟩
    have sub : Ordered key (between key low ⊤ rows) := List.Pairwise.filter _ ordered
    refine ⟨?_,?_,fun _ => ?_⟩
    · dsimp only
      rw [short,ends,Option.map_some,stop,Option.map_some,Option.getD_some,faithful,sub.take_between after ends]
      rw [between,between,between,List.filter_filter]
      apply List.filter_congr
      intro r _
      rw [← Bool.decide_and,decide_eq_decide]
      exact ⟨fun ⟨upto,_⟩ => upto,fun inside => ⟨inside,inside.1,le_top⟩⟩
    · dsimp only
      rw [short]
      exact fun r member => after r (List.mem_of_mem_take member)
    · dsimp only
      rw [short]
      exact filled
  next last =>
    have whole : (between key low ⊤ rows).take (limit + 1) = between key low ⊤ rows := by
      apply List.take_of_length_le
      rw [List.length_take] at last
      omega
    refine ⟨?_,?_,fun none_ => by cases none_⟩
    · dsimp only
      rw [whole]
      rfl
    · dsimp only
      rw [whole]
      exact after

end LookAhead

section Walk
variable {γ : Type}

/-- One page of a walk: the rows that were there, the page, and where it says to go on. -/
structure Step (ρ γ : Type) where
  rows : List ρ
  page : List ρ
  next : Option γ

/-- A page is what lies between its bounds, and one that goes on is not empty. -/
structure Step.Fits (key : ρ → κ) (boundOf : γ → Bound κ) (low : Bound κ) (s : Step ρ γ) : Prop where
  ordered : Ordered key s.rows
  up : low ≤ stop boundOf s.next
  page : s.page = between key low (stop boundOf s.next) s.rows
  filled : s.next.isSome = true → s.page ≠ []

/-- Pages taken one after the other, each from the cursor of the one before. -/
def Walk (key : ρ → κ) (boundOf : γ → Bound κ) : Bound κ → List (Step ρ γ) → Prop
  | _,[] => True
  | low,s :: later => s.Fits key boundOf low ∧
      (later = [] ∨ ∃ cursor, s.next = some cursor ∧ Walk key boundOf (boundOf cursor) later)

/-- The last page says that nothing follows. -/
def Ended (steps : List (Step ρ γ)) : Prop := ∃ last, steps.getLast? = some last ∧ last.next = none

variable {key : ρ → κ} {boundOf : γ → Bound κ} {low : Bound κ} {steps : List (Step ρ γ)}

/-- A page that looks one row ahead fits. -/
theorem lookAhead_fits {cursorOf : ρ → γ} (faithful : ∀ r, boundOf (cursorOf r) = Bound.key (key r)) {rows : List ρ}
    (ordered : Ordered key rows) {limit : Nat} (some_ : 1 ≤ limit) :
    (Step.mk rows (lookAhead cursorOf limit ((between key low ⊤ rows).take (limit + 1))).1
      (lookAhead cursorOf limit ((between key low ⊤ rows).take (limit + 1))).2).Fits key boundOf low := by
  obtain ⟨shape,beyond,filled⟩ := lookAhead_between faithful ordered some_
  refine ⟨ordered,?_,shape,filled⟩
  dsimp only
  cases next : (lookAhead cursorOf limit ((between key low ⊤ rows).take (limit + 1))).2 with
  | none => exact le_top
  | some cursor =>
    obtain ⟨r,member,same⟩ := lookAhead_cursor faithful next
    exact (beyond r member).le.trans (le_of_eq same.symm)

/-- A walk is a chain of turns. -/
theorem Walk.chained (walk : Walk key boundOf low steps) :
    ∃ (turns : List (Turn κ ρ)) (high : Bound κ), Chained low high turns ∧
      turns.map Turn.rows = steps.map Step.rows ∧ turns.map (Turn.returned key) = steps.map Step.page ∧
      (Ended steps → high = ⊤) := by
  induction steps generalizing low with
  | nil => exact ⟨[],low,rfl,rfl,rfl,fun ⟨_,none_,_⟩ => by cases none_⟩
  | cons s later ih =>
    obtain ⟨fits,rest⟩ := walk
    rcases rest with rfl | ⟨cursor,next,rest⟩
    · refine ⟨[⟨s.rows,low,stop boundOf s.next⟩],stop boundOf s.next,⟨rfl,fits.up,rfl⟩,rfl,?_,?_⟩
      · rw [List.map_singleton,List.map_singleton,fits.page]
        rfl
      · rintro ⟨last,final,none_⟩
        obtain rfl : s = last := by simpa using final
        rw [none_]
        rfl
    · obtain ⟨turns,high,chained,rows,pages,ended⟩ := ih rest
      have joined : stop boundOf s.next = boundOf cursor := by
        rw [next]
        rfl
      refine ⟨⟨s.rows,low,stop boundOf s.next⟩ :: turns,high,⟨rfl,fits.up,joined ▸ chained⟩,?_,?_,?_⟩
      · rw [List.map_cons,List.map_cons,rows]
      · rw [List.map_cons,List.map_cons,pages,fits.page]
        rfl
      · rintro ⟨last,final,none_⟩
        cases later with
        | nil =>
          obtain rfl : s = last := by simpa using final
          rw [next] at none_
          cases none_
        | cons t rest => exact ended ⟨last,by rw [List.getLast?_cons_cons] at final; exact final,none_⟩

/-- A walk that stopped at a cursor, and one from there. -/
theorem Walk.append {later : List (Step ρ γ)} (walk : Walk key boundOf low steps) {last : Step ρ γ}
    (final : steps.getLast? = some last) {cursor : γ} (next : last.next = some cursor)
    (rest : Walk key boundOf (boundOf cursor) later) : Walk key boundOf low (steps ++ later) := by
  induction steps generalizing low with
  | nil => cases final
  | cons s more ih =>
    obtain ⟨fits,onward⟩ := walk
    refine ⟨fits,?_⟩
    rcases onward with rfl | ⟨at',handed,onward⟩
    · obtain rfl : s = last := by simpa using final
      exact .inr ⟨cursor,next,rest⟩
    · cases more with
      | nil =>
        obtain rfl : s = last := by simpa using final
        obtain rfl := Option.some.inj (handed.symm.trans next)
        exact .inr ⟨at',handed,rest⟩
      | cons t more => exact .inr ⟨at',handed,ih onward (by rw [List.getLast?_cons_cons] at final; exact final)⟩

theorem Walk.each (walk : Walk key boundOf low steps) : ∀ s ∈ steps, Ordered key s.rows ∧ ∀ r ∈ s.page, r ∈ s.rows := by
  induction steps generalizing low with
  | nil => nofun
  | cons s later ih =>
    obtain ⟨fits,rest⟩ := walk
    intro t member
    rcases List.mem_cons.mp member with rfl | member
    · exact ⟨fits.ordered,fun r listed => List.mem_of_mem_filter (fits.page ▸ listed)⟩
    · rcases rest with rfl | ⟨_,_,rest⟩
      · cases member
      · exact ih rest t member

omit [LinearOrder κ] in
theorem turns_step {turns : List (Turn κ ρ)} (rows : turns.map Turn.rows = steps.map Step.rows) {t : Turn κ ρ}
    (member : t ∈ turns) : ∃ s ∈ steps, s.rows = t.rows := by
  have listed : t.rows ∈ turns.map Turn.rows := List.mem_map_of_mem member
  rw [rows] at listed
  exact List.mem_map.mp listed

theorem turns_returned {turns : List (Turn κ ρ)} (pages : turns.map (Turn.returned key) = steps.map Step.page) :
    returned key turns = steps.flatMap Step.page := by
  rw [returned,List.flatMap_def,List.flatMap_def,pages]

theorem Walk.ordered (walk : Walk key boundOf low steps) : Ordered key (steps.flatMap Step.page) := by
  obtain ⟨turns,high,chained,rows,pages,_⟩ := walk.chained
  rw [← turns_returned pages]
  refine chained.ordered fun t member => ?_
  obtain ⟨s,listed,same⟩ := turns_step rows member
  exact same ▸ (walk.each s listed).1

/-- A key above the start that is there at every page of a whole walk is returned. -/
theorem Walk.complete (walk : Walk key boundOf low steps) (ended : Ended steps) {k : κ} (after : low < Bound.key k)
    (present : ∀ s ∈ steps, ∃ r ∈ s.rows, key r = k) : ∃ s ∈ steps, ∃ r ∈ s.page, key r = k := by
  obtain ⟨turns,high,chained,rows,pages,top⟩ := walk.chained
  have there : ∀ t ∈ turns, ∃ r ∈ t.rows, key r = k := by
    intro t member
    obtain ⟨s,listed,same⟩ := turns_step rows member
    exact same ▸ present s listed
  obtain ⟨t,member,r,shown,own⟩ := chained.complete ⟨after,top ended ▸ le_top⟩ there
  have page : t.returned key ∈ turns.map (Turn.returned key) := List.mem_map_of_mem member
  rw [pages] at page
  obtain ⟨s,listed,same⟩ := List.mem_map.mp page
  exact ⟨s,listed,r,same ▸ shown,own⟩

/-- A row that is there at every page of a whole walk is returned once. -/
theorem Walk.once (walk : Walk key boundOf low steps) (ended : Ended steps) {r : ρ} (after : low < Bound.key (key r))
    (present : ∀ s ∈ steps, r ∈ s.rows) :
    (steps.flatMap Step.page).filter (fun x => decide (key x = key r)) = [r] := by
  have alike : ∀ x ∈ steps.flatMap Step.page, key x = key r → x = r := by
    intro x member same
    obtain ⟨s,listed,shown⟩ := List.mem_flatMap.mp member
    obtain ⟨ordered,inside⟩ := walk.each s listed
    exact List.inj_on_of_nodup_map ordered.nodup (inside x shown) (present s listed) same
  obtain ⟨s,listed,x,shown,own⟩ := walk.complete ended after fun s listed => ⟨r,present s listed,rfl⟩
  have member : r ∈ steps.flatMap Step.page := by
    have inside : x ∈ steps.flatMap Step.page := List.mem_flatMap.mpr ⟨s,listed,shown⟩
    exact alike x inside own ▸ inside
  have kept : ∀ x ∈ (steps.flatMap Step.page).filter (fun x => decide (key x = key r)), x = r := by
    intro x there
    obtain ⟨there,same⟩ := List.mem_filter.mp there
    exact alike x there (of_decide_eq_true same)
  have inside : r ∈ (steps.flatMap Step.page).filter (fun x => decide (key x = key r)) :=
    List.mem_filter.mpr ⟨member,decide_eq_true rfl⟩
  have strict : Ordered key ((steps.flatMap Step.page).filter (fun x => decide (key x = key r))) :=
    walk.ordered.filter _
  generalize (steps.flatMap Step.page).filter (fun x => decide (key x = key r)) = rows at kept inside strict
  match rows with
  | [] => cases inside
  | [x] => exact congrArg (fun y => [y]) (kept x List.mem_cons_self)
  | x :: y :: _ =>
    have less := (List.pairwise_cons.mp strict).1 y List.mem_cons_self
    rw [kept x List.mem_cons_self,kept y (List.mem_cons_of_mem _ List.mem_cons_self)] at less
    exact absurd less (lt_irrefl _)

theorem Walk.filled (walk : Walk key boundOf low steps) (going : ¬Ended steps) : ∀ s ∈ steps, s.page ≠ [] := by
  induction steps generalizing low with
  | nil => nofun
  | cons s later ih =>
    obtain ⟨fits,rest⟩ := walk
    intro t member
    rcases rest with rfl | ⟨cursor,next,rest⟩
    · obtain rfl := List.mem_singleton.mp member
      apply fits.filled
      by_contra none_
      exact going ⟨t,rfl,by simpa using none_⟩
    · rcases List.mem_cons.mp member with rfl | member
      · exact fits.filled (by rw [next]; rfl)
      · refine ih rest ?_ t member
        rintro ⟨last,final,none_⟩
        refine going ⟨last,?_,none_⟩
        cases later with
        | nil => cases final
        | cons u more =>
          rw [List.getLast?_cons_cons]
          exact final

/-- Among keys that were there at first, a walk longer than these has ended. -/
theorem Walk.ends (walk : Walk key boundOf low steps) (keys : List κ) (among : ∀ s ∈ steps, ∀ r ∈ s.rows, key r ∈ keys)
    (long : keys.length < steps.length) : Ended steps := by
  by_contra going
  obtain ⟨turns,high,chained,rows,pages,_⟩ := walk.chained
  have many : turns.length = steps.length := by
    have := congrArg List.length rows
    rwa [List.length_map,List.length_map] at this
  have few := chained.bounded (fun t member => by
      obtain ⟨s,listed,same⟩ := turns_step rows member
      exact same ▸ (walk.each s listed).1)
    keys (fun t member r held => by
      obtain ⟨s,listed,same⟩ := turns_step rows member
      exact among s listed r (same ▸ held))
    (fun t member => by
      have page : t.returned key ∈ turns.map (Turn.returned key) := List.mem_map_of_mem member
      rw [pages] at page
      obtain ⟨s,listed,same⟩ := List.mem_map.mp page
      exact same ▸ walk.filled going s listed)
  rw [many] at few
  exact absurd long (Nat.not_lt_of_le few)

end Walk

section Sorting

/-- Rows without two under a key, sorted by it. -/
theorem sorted_strict {key : ρ → κ} {le : ρ → ρ → Bool} (by_ : ∀ a b, le a b = true ↔ key a ≤ key b) {rows : List ρ}
    (distinct : (rows.map key).Nodup) : Ordered key (rows.mergeSort le) := by
  have rising : (rows.mergeSort le).Pairwise fun a b => le a b = true := List.pairwise_mergeSort
    (fun a b c ab bc => (by_ a c).mpr (((by_ a b).mp ab).trans ((by_ b c).mp bc)))
    (fun a b => by
      rw [Bool.or_eq_true,by_,by_]
      exact le_total _ _) rows
  have apart : (rows.mergeSort le).Pairwise fun a b => key a ≠ key b :=
    List.pairwise_map.mp (((List.mergeSort_perm rows le).map key).nodup_iff.mpr distinct)
  exact (rising.and apart).imp fun {a b} both => lt_of_le_of_ne ((by_ a b).mp both.1) both.2

/-- Rows selected before sorting are those selected after it. -/
theorem mergeSort_filter {key : ρ → κ} {le : ρ → ρ → Bool} (by_ : ∀ a b, le a b = true ↔ key a ≤ key b) {rows : List ρ}
    (distinct : (rows.map key).Nodup) (keep : ρ → Bool) :
    (rows.filter keep).mergeSort le = (rows.mergeSort le).filter keep := by
  have fewer : ((rows.filter keep).map key).Nodup := distinct.sublist (List.filter_sublist.map _)
  have kept : Ordered key ((rows.mergeSort le).filter keep) := (sorted_strict by_ distinct).filter _
  have apart : ∀ a b, a ∈ (rows.filter keep).mergeSort le → b ∈ (rows.mergeSort le).filter keep →
      key a < key b → key b < key a → a = b := fun a b _ _ ab ba => absurd (ab.trans ba) (lt_irrefl _)
  exact List.Perm.eq_of_pairwise apart (sorted_strict by_ fewer) kept
    ((List.mergeSort_perm _ _).trans ((List.mergeSort_perm rows le).filter keep).symm)

end Sorting

section Visits
variable {ν γ : Type} {walk : Option γ → List ν → Prop} {asked : Option γ → ν → Prop}

/-- A caller goes on from where the visit before has left off, for as long as there is a visit. -/
structure Asks (walk : Option γ → List ν → Prop) (asked : Option γ → ν → Prop) : Prop where
  nil : ∀ cursor, walk cursor []
  cons : ∀ {cursor v later}, walk cursor (v :: later) → asked cursor v ∧ (later = [] ∨ ∃ next, walk next later)

theorem Asks.each (asks : Asks walk asked) {cursor : Option γ} {visits : List ν} (pages : walk cursor visits) :
    ∀ v ∈ visits, ∃ cursor, asked cursor v := by
  induction visits generalizing cursor with
  | nil => nofun
  | cons v later ih =>
    obtain ⟨here,rest⟩ := asks.cons pages
    intro w member
    rcases List.mem_cons.mp member with rfl | member
    · exact ⟨cursor,here⟩
    · rcases rest with rfl | ⟨_,rest⟩
      · cases member
      · exact ih rest w member

theorem Asks.suffix (asks : Asks walk asked) {cursor : Option γ} {earlier later : List ν} (pages : walk cursor (earlier ++ later)) :
    ∃ cursor, walk cursor later := by
  induction earlier generalizing cursor with
  | nil => exact ⟨cursor,pages⟩
  | cons v earlier ih =>
    rcases (asks.cons pages).2 with none_ | ⟨_,rest⟩
    · obtain ⟨-,rfl⟩ := List.append_eq_nil_iff.mp none_
      exact ⟨none,asks.nil none⟩
    · exact ih rest

end Visits

end Entorhinal.Paging
