import Mathlib.Algebra.Order.Ring.Int
import Mathlib.Data.List.Nodup
import Mathlib.Data.List.Perm.Subperm
import Mathlib.Tactic.Common

/-! What is grown from roots. Candidates wait until what they name is held, are tried once, and the ones that
are valid are held from then on; in whatever order they stand, what is held in the end is the least set with
the roots and every candidate that is valid for something held. -/
namespace Entorhinal.Rooted

variable {α β : Type} (made : β → α) (names valid : α → β → Bool)

/-- One pass: what is held after it, and which candidates still wait. -/
def retain (held : List α) : List β → List α × List β
  | [] => (held,[])
  | c :: rest => match held.find? (names · c) with
    | none => ((retain held rest).1,c :: (retain held rest).2)
    | some old => retain (if valid old c then held ++ [made c] else held) rest

theorem retain_grows (held : List α) (waiting : List β) :
    ∃ added, (retain made names valid held waiting).1 = held ++ added ∧
      added.length + (retain made names valid held waiting).2.length ≤ waiting.length := by
  induction waiting generalizing held with
  | nil => exact ⟨[],(List.append_nil held).symm,Nat.le_refl _⟩
  | cons c rest ih =>
    rw [retain]
    split
    next =>
      obtain ⟨added,grown,short⟩ := ih held
      refine ⟨added,grown,?_⟩
      rw [List.length_cons,List.length_cons]
      omega
    next old =>
      split_ifs
      · obtain ⟨added,grown,short⟩ := ih (held ++ [made c])
        refine ⟨made c :: added,?_,?_⟩
        · rw [grown,List.append_assoc]
          rfl
        · rw [List.length_cons,List.length_cons]
          omega
      · obtain ⟨added,grown,short⟩ := ih held
        exact ⟨added,grown,Nat.le_trans short (Nat.le_succ _)⟩

/-- Passes are made until one adds nothing. -/
def settle (held : List α) (waiting : List β) : List α :=
  if (retain made names valid held waiting).1.length = held.length then (retain made names valid held waiting).1
  else settle (retain made names valid held waiting).1 (retain made names valid held waiting).2
termination_by waiting.length
decreasing_by
  obtain ⟨added,grown,short⟩ := retain_grows made names valid held waiting
  rename_i more
  rw [grown,List.length_append] at more
  omega

/-- The least set with the roots and every candidate that is valid for something in it. -/
inductive Grown (roots : List α) (candidates : List β) : α → Prop
  | root {a : α} (listed : a ∈ roots) : Grown roots candidates a
  | next {old : α} {c : β} (listed : c ∈ candidates) (held : Grown roots candidates old) (named : names old c = true)
      (fits : valid old c = true) : Grown roots candidates (made c)

section Passes
variable {roots held : List α} {candidates waiting : List β}

theorem retain_sound (listed : ∀ c ∈ waiting, c ∈ candidates) (sound : ∀ a ∈ held, Grown made names valid roots candidates a) :
    ∀ a ∈ (retain made names valid held waiting).1, Grown made names valid roots candidates a := by
  induction waiting generalizing held with
  | nil => exact sound
  | cons c rest ih =>
    obtain ⟨first,others⟩ := List.forall_mem_cons.mp listed
    rw [retain]
    split
    next => exact ih others sound
    next old found =>
      refine ih others fun a member => ?_
      split_ifs at member with fits
      · rcases List.mem_append.mp member with before | new
        · exact sound a before
        · rw [List.mem_singleton.mp new]
          exact .next first (sound old (List.mem_of_find?_eq_some found))
            (List.find?_some (p := fun a => names a c) found) fits
      · exact sound a member

theorem retain_waits : ∀ c ∈ (retain made names valid held waiting).2, c ∈ waiting ∧ ∀ old ∈ held, names old c ≠ true := by
  induction waiting generalizing held with
  | nil => exact fun _ member => absurd member List.not_mem_nil
  | cons c rest ih =>
    rw [retain]
    split
    next none_ =>
      refine List.forall_mem_cons.mpr ⟨⟨List.mem_cons_self,List.find?_eq_none.mp none_⟩,fun d member => ?_⟩
      obtain ⟨inside,unnamed⟩ := ih d member
      exact ⟨List.mem_cons_of_mem _ inside,unnamed⟩
    next old =>
      intro d member
      obtain ⟨inside,unnamed⟩ := ih d member
      refine ⟨List.mem_cons_of_mem _ inside,fun old_ before => unnamed old_ ?_⟩
      split_ifs
      · exact List.mem_append_left _ before
      · exact before

/-- A candidate that was tried names something held: it is held itself, or not valid. -/
theorem retain_tried : ∀ c ∈ waiting, made c ∈ (retain made names valid held waiting).1 ∨
    c ∈ (retain made names valid held waiting).2 ∨
    ∃ old ∈ (retain made names valid held waiting).1, names old c = true ∧ valid old c = false := by
  induction waiting generalizing held with
  | nil => exact fun _ member => absurd member List.not_mem_nil
  | cons c rest ih =>
    rw [retain]
    split
    next none_ =>
      refine List.forall_mem_cons.mpr ⟨.inr (.inl List.mem_cons_self),fun d member => ?_⟩
      rcases ih d member with held_ | waits | tried
      · exact .inl held_
      · exact .inr (.inl (List.mem_cons_of_mem _ waits))
      · exact .inr (.inr tried)
    next old found =>
      refine List.forall_mem_cons.mpr ⟨?_,fun d member => ih d member⟩
      obtain ⟨added,grown,_⟩ := retain_grows made names valid (if valid old c then held ++ [made c] else held) rest
      rw [grown]
      by_cases fits : valid old c = true
      · rw [if_pos fits]
        exact .inl (List.mem_append_left _ (List.mem_append_right _ (List.mem_singleton_self _)))
      · rw [if_neg fits]
        exact .inr (.inr ⟨old,List.mem_append_left _ (List.mem_of_find?_eq_some found),
          List.find?_some (p := fun a => names a c) found,Bool.eq_false_iff.mpr fits⟩)

theorem retain_subperm : ((retain made names valid held waiting).1 ++ (retain made names valid held waiting).2.map made).Subperm
    (held ++ waiting.map made) := by
  induction waiting generalizing held with
  | nil => exact List.Subperm.refl _
  | cons c rest ih =>
    rw [retain]
    split
    next =>
      rw [List.map_cons,List.map_cons]
      exact (List.perm_middle.subperm_right.mpr (List.perm_middle.subperm_left.mpr ((List.subperm_cons _).mpr ih)))
    next old =>
      split_ifs
      · refine ih.trans ?_
        rw [List.append_assoc]
        exact List.Subperm.refl _
      · exact ih.trans ((List.Sublist.append_left (List.sublist_cons_self _ _) held).subperm)

end Passes

section Settled
variable {roots held : List α} {candidates waiting : List β}

theorem settle_sound (listed : ∀ c ∈ waiting, c ∈ candidates) (sound : ∀ a ∈ held, Grown made names valid roots candidates a) :
    ∀ a ∈ settle made names valid held waiting, Grown made names valid roots candidates a := by
  induction held,waiting using settle.induct made names valid with
  | case1 held waiting same =>
    rw [settle,if_pos same]
    exact retain_sound made names valid listed sound
  | case2 held waiting more ih =>
    rw [settle,if_neg more]
    exact ih (fun c member => listed c (retain_waits made names valid c member).1) (retain_sound made names valid listed sound)

theorem settle_subperm : (settle made names valid held waiting).Subperm (held ++ waiting.map made) := by
  induction held,waiting using settle.induct made names valid with
  | case1 held waiting same =>
    rw [settle,if_pos same]
    exact ((List.sublist_append_left _ _).subperm).trans (retain_subperm made names valid)
  | case2 held waiting more ih =>
    rw [settle,if_neg more]
    exact ih.trans (retain_subperm made names valid)

theorem settle_keeps : ∀ a ∈ held, a ∈ settle made names valid held waiting := by
  induction held,waiting using settle.induct made names valid with
  | case1 held waiting same =>
    obtain ⟨added,grown,_⟩ := retain_grows made names valid held waiting
    rw [settle,if_pos same,grown]
    exact fun a member => List.mem_append_left _ member
  | case2 held waiting more ih =>
    obtain ⟨added,grown,_⟩ := retain_grows made names valid held waiting
    rw [settle,if_neg more]
    exact fun a member => ih a (grown ▸ List.mem_append_left _ member)

theorem retain_unnamed (unnamed : ∀ c ∈ waiting, ∀ old ∈ held, names old c ≠ true) :
    retain made names valid held waiting = (held,waiting) := by
  induction waiting with
  | nil => rfl
  | cons c rest ih =>
    obtain ⟨first,others⟩ := List.forall_mem_cons.mp unnamed
    rw [retain,List.find?_eq_none.mpr first,ih others]

/-- In the end a further pass would change nothing: every candidate is held, or was tried and is not valid, or
still waits for what is not held. -/
theorem settle_ended : ∃ rest, retain made names valid (settle made names valid held waiting) rest =
      (settle made names valid held waiting,rest) ∧
    (∀ c ∈ rest, ∀ old ∈ settle made names valid held waiting, names old c ≠ true) ∧
    ∀ c ∈ waiting, made c ∈ settle made names valid held waiting ∨ c ∈ rest ∨
      ∃ old ∈ settle made names valid held waiting, names old c = true ∧ valid old c = false := by
  induction held,waiting using settle.induct made names valid with
  | case1 held waiting same =>
    obtain ⟨added,grown,_⟩ := retain_grows made names valid held waiting
    have none_ : added = [] := by
      rw [grown,List.length_append] at same
      exact List.length_eq_zero_iff.mp (by omega)
    rw [none_,List.append_nil] at grown
    have waits := @retain_waits _ _ made names valid held waiting
    rw [settle,if_pos same]
    refine ⟨_,?_,?_,retain_tried made names valid⟩
    · rw [grown]
      exact retain_unnamed made names valid fun c member => (waits c member).2
    · rw [grown]
      exact fun c member => (waits c member).2
  | case2 held waiting more ih =>
    rw [settle,if_neg more]
    obtain ⟨rest,ended,unnamed,each⟩ := ih
    refine ⟨rest,ended,unnamed,fun c member => ?_⟩
    rcases retain_tried made names valid c member with held_ | waits | ⟨old,before,tried⟩
    · exact .inl (settle_keeps made names valid _ held_)
    · exact each c waits
    · exact .inr (.inr ⟨old,settle_keeps made names valid _ before,tried⟩)

/-- What is held in the end is what grows from the roots. -/
theorem mem_settle (unique : ∀ a b, a ∈ roots ++ candidates.map made → b ∈ roots ++ candidates.map made →
      ∀ c ∈ candidates, names a c = true → names b c = true → a = b) {a : α} :
    a ∈ settle made names valid roots candidates ↔ Grown made names valid roots candidates a := by
  refine ⟨settle_sound made names valid (fun c => id) (fun a => .root) a,fun grown => ?_⟩
  have within : ∀ a ∈ settle made names valid roots candidates, a ∈ roots ++ candidates.map made :=
    fun a member => (settle_subperm made names valid).subset member
  obtain ⟨rest,_,unnamed,each⟩ := @settle_ended _ _ made names valid roots candidates
  induction grown with
  | root listed => exact settle_keeps made names valid _ listed
  | @next old c listed _ named fits ih =>
    rcases each c listed with held_ | waits | ⟨other,held_,named',unfit⟩
    · exact held_
    · exact absurd named (unnamed c waits old ih)
    · have same := unique old other (within old ih) (within other held_) c listed named named'
      rw [same,unfit] at fits
      cases fits

end Settled

end Entorhinal.Rooted
