import Mathlib.Algebra.Order.Ring.Int
import Mathlib.Data.List.Forall2
import Mathlib.Tactic.Common

/-! Computations that may refuse: what an accepted bind, a fold and a list taken item by item
went through. The results of a list stand to its items one by one. -/
namespace Entorhinal

theorem bind_ok {ε α β : Type} {first : Except ε α} {next : α → Except ε β} {result : β}
    (ok : (first >>= next) = .ok result) : ∃ value, first = .ok value ∧ next value = .ok result := by
  cases first with
  | error e => cases ok
  | ok value => exact ⟨value,rfl,ok⟩

theorem bind_error {ε α β : Type} {first : Except ε α} {next : α → Except ε β} {e : ε}
    (failed : (first >>= next) = .error e) :
    first = .error e ∨ ∃ value, first = .ok value ∧ next value = .error e := by
  cases first with
  | error e' => cases failed; exact .inl rfl
  | ok value => exact .inr ⟨value,rfl,failed⟩

theorem map_ok {ε α β : Type} {first : Except ε α} {f : α → β} {result : β}
    (ok : first.map f = .ok result) : ∃ value, first = .ok value ∧ f value = result := by
  cases first with
  | error e => cases ok
  | ok value => exact ⟨value,rfl,Except.ok.inj ok⟩

theorem mapError_ok {ε ε' α : Type} {first : Except ε α} {f : ε → ε'} {result : α}
    (ok : first.mapError f = .ok result) : first = .ok result := by
  cases first with
  | error e => cases ok
  | ok value => exact congrArg Except.ok (Except.ok.inj ok)

/-- What every accepted step of a fold keeps holds of its result. -/
theorem foldlM_mem {ε α β : Type} (holds : β → Prop) {step : β → α → Except ε β} {items : List α}
    (kept : ∀ b a b', a ∈ items → holds b → step b a = .ok b' → holds b') {start result : β}
    (initial : holds start) (ok : items.foldlM step start = .ok result) : holds result := by
  induction items generalizing start with
  | nil => cases ok; exact initial
  | cons item rest ih =>
    rw [List.foldlM_cons] at ok
    obtain ⟨middle,taken,ok⟩ := bind_ok ok
    have next : holds middle := kept start item middle List.mem_cons_self initial taken
    exact ih (fun b a b' inside => kept b a b' (List.mem_cons_of_mem _ inside)) next ok

theorem foldlM_ok {ε α β : Type} (holds : β → Prop) {step : β → α → Except ε β}
    (kept : ∀ b a b', holds b → step b a = .ok b' → holds b') {items : List α} {start result : β}
    (initial : holds start) (ok : items.foldlM step start = .ok result) : holds result :=
  foldlM_mem holds (fun b a b' _ => kept b a b') initial ok

/-- A fold whose steps all succeed from what holds succeeds, and it still holds. -/
theorem foldlM_total {ε α β : Type} (holds : β → Prop) {step : β → α → Except ε β} {items : List α}
    (steps : ∀ b a, a ∈ items → holds b → ∃ b', step b a = .ok b' ∧ holds b') {start : β}
    (initial : holds start) : ∃ result, items.foldlM step start = .ok result ∧ holds result := by
  induction items generalizing start with
  | nil => exact ⟨start,rfl,initial⟩
  | cons item rest ih =>
    obtain ⟨middle,taken,next⟩ := steps start item List.mem_cons_self initial
    obtain ⟨result,done,holding⟩ :=
      ih (fun b a inside => steps b a (List.mem_cons_of_mem _ inside)) next
    exact ⟨result,by rw [List.foldlM_cons,taken]; exact done,holding⟩

section
variable {α β : Type} {R : α → β → Prop} {items : List α} {others : List β}

theorem pair_right (pairs : List.Forall₂ R items others) {b : β} (member : b ∈ others) : ∃ a ∈ items, R a b := by
  induction pairs with
  | nil => cases member
  | cons first _ ih =>
    rcases List.mem_cons.mp member with rfl | later
    · exact ⟨_,List.mem_cons_self,first⟩
    · obtain ⟨a,inside,related⟩ := ih later
      exact ⟨a,List.mem_cons_of_mem _ inside,related⟩

theorem pair_left (pairs : List.Forall₂ R items others) {a : α} (member : a ∈ items) : ∃ b ∈ others, R a b :=
  pair_right pairs.flip member

theorem forall_pairs {f : α → Bool} {P : β → Prop} (each : ∀ a b, R a b → (f a = true ↔ P b))
    (pairs : List.Forall₂ R items others) : items.all f = true ↔ ∀ b ∈ others, P b := by
  induction pairs with
  | nil => exact ⟨fun _ _ member => absurd member List.not_mem_nil,fun _ => rfl⟩
  | cons first _ ih => rw [List.all_cons,Bool.and_eq_true,each _ _ first,ih,List.forall_mem_cons]

theorem exists_pairs {f : α → Bool} {P : β → Prop} (each : ∀ a b, R a b → (f a = true ↔ P b))
    (pairs : List.Forall₂ R items others) : items.any f = true ↔ ∃ b ∈ others, P b := by
  induction pairs with
  | nil =>
    refine iff_of_false Bool.false_ne_true ?_
    rintro ⟨_,member,_⟩
    cases member
  | cons first _ ih => rw [List.any_cons,Bool.or_eq_true,each _ _ first,ih,List.exists_mem_cons_iff]

theorem paired {P : α → Prop} {Q : β → Prop} (each : ∀ a b, R a b → P a ∧ Q b) (pairs : List.Forall₂ R items others) :
    (∀ a ∈ items, P a) ∧ ∀ b ∈ others, Q b := by
  constructor
  · intro a member
    obtain ⟨b,_,related⟩ := pair_left pairs member
    exact (each a b related).1
  · intro b member
    obtain ⟨a,_,related⟩ := pair_right pairs member
    exact (each a b related).2

/-- Two lists end alike where their items do. -/
theorem last_pairs {P : α → Prop} {Q : β → Prop} (each : ∀ a b, R a b → (P a ↔ Q b)) (pairs : List.Forall₂ R items others) :
    (∃ a, items.getLast? = some a ∧ P a) ↔ ∃ b, others.getLast? = some b ∧ Q b := by
  induction pairs with
  | nil => simp
  | cons first rest ih =>
    cases rest with
    | nil => simp [each _ _ first]
    | cons _ _ => simpa only [List.getLast?_cons_cons] using ih

theorem flatMap_pairs {γ : Type} {f : α → List γ} {g : β → List γ} (each : ∀ a b, R a b → f a = g b)
    (pairs : List.Forall₂ R items others) : items.flatMap f = others.flatMap g := by
  induction pairs with
  | nil => rfl
  | cons first _ ih => rw [List.flatMap_cons,List.flatMap_cons,each _ _ first,ih]

end

/-- The results of a list stand to its items one by one. -/
theorem mapM_each {ε α β : Type} {f : α → Except ε β} {items : List α} {results : List β}
    (ok : items.mapM f = .ok results) : List.Forall₂ (fun item result => f item = .ok result) items results := by
  induction items generalizing results with
  | nil =>
    cases ok
    exact .nil
  | cons item rest ih =>
    rw [List.mapM_cons] at ok
    obtain ⟨first,taken,ok⟩ := bind_ok ok
    obtain ⟨others,more,ok⟩ := bind_ok ok
    cases ok
    exact .cons taken (ih more)

theorem mapM_ok {ε α β : Type} {f : α → Except ε β} {items : List α} {results : List β}
    (ok : items.mapM f = .ok results) : ∀ result ∈ results, ∃ item ∈ items, f item = .ok result :=
  fun _ member => pair_right (mapM_each ok) member

theorem mapM_item {ε α β : Type} {f : α → Except ε β} {items : List α} {results : List β}
    (ok : items.mapM f = .ok results) : ∀ item ∈ items, ∃ result ∈ results, f item = .ok result :=
  fun _ member => pair_left (mapM_each ok) member

/-- What no item's result changes, the whole list keeps. -/
theorem mapM_map {ε α β γ : Type} {f : α → Except ε β} (before : α → γ) (after : β → γ)
    (kept : ∀ a b, f a = .ok b → after b = before a) {items : List α} {results : List β}
    (ok : items.mapM f = .ok results) : results.map after = items.map before := by
  have pairs := mapM_each ok
  clear ok
  induction pairs with
  | nil => rfl
  | cons first _ ih => rw [List.map_cons,List.map_cons,kept _ _ first,ih]

theorem mapM_error {ε α β : Type} {f : α → Except ε β} {items : List α} {e : ε}
    (failed : items.mapM f = .error e) : ∃ item ∈ items, f item = .error e := by
  induction items with
  | nil => cases failed
  | cons item rest ih =>
    rw [List.mapM_cons] at failed
    rcases bind_error failed with first | ⟨_,_,failed⟩
    · exact ⟨item,List.mem_cons_self,first⟩
    · rcases bind_error failed with later | ⟨_,_,done⟩
      · obtain ⟨other,inside,same⟩ := ih later
        exact ⟨other,List.mem_cons_of_mem _ inside,same⟩
      · cases done

theorem mapM_pairs {α β : Type} {f : α → Option β} {items : List α} {results : List β} (ok : items.mapM f = some results) :
    List.Forall₂ (fun item result => f item = some result) items results := by
  induction items generalizing results with
  | nil =>
    cases ok
    exact .nil
  | cons item items ih =>
    rw [List.mapM_cons] at ok
    obtain ⟨first,taken,ok⟩ := Option.bind_eq_some_iff.mp ok
    obtain ⟨others,more,ok⟩ := Option.bind_eq_some_iff.mp ok
    cases ok
    exact .cons taken (ih more)

theorem mapM_some {α β : Type} {f : α → Option β} {items : List α} {results : List β}
    (ok : items.mapM f = some results) : ∀ item ∈ items, ∃ result, f item = some result := by
  intro item member
  obtain ⟨result,_,read⟩ := pair_left (mapM_pairs ok) member
  exact ⟨result,read⟩

theorem pairs_mapM {α β : Type} {f : α → Option β} {items : List α} {results : List β}
    (pairs : List.Forall₂ (fun item result => f item = some result) items results) : items.mapM f = some results := by
  induction pairs with
  | nil => rfl
  | cons first rest ih =>
    rw [List.mapM_cons,first,ih]
    rfl

/-- What is read piece by piece is read by another reader that agrees with it on each piece. -/
theorem read_pairs {α β γ : Type} {f : α → Option β} {g : α → Option γ} {R : β → γ → Prop} {items : List α} {results : List β}
    (each : ∀ a b, f a = some b → ∃ c, g a = some c ∧ R b c) (read : items.mapM f = some results) :
    ∃ others, items.mapM g = some others ∧ List.Forall₂ R results others := by
  have pairs := mapM_pairs read
  clear read
  induction pairs with
  | nil => exact ⟨[],rfl,.nil⟩
  | cons first _ ih =>
    obtain ⟨c,one,same⟩ := each _ _ first
    obtain ⟨rest,more,others⟩ := ih
    refine ⟨c :: rest,?_,.cons same others⟩
    rw [List.mapM_cons,one,more]
    rfl

theorem forM_ok {ε α : Type} {f : α → Except ε Unit} {items : List α} (ok : items.forM f = .ok ()) :
    ∀ item ∈ items, f item = .ok () := by
  induction items with
  | nil => exact fun _ member => absurd member List.not_mem_nil
  | cons item rest ih =>
    obtain ⟨_,first,ok⟩ := bind_ok (show (f item >>= fun _ => rest.forM f) = .ok () from ok)
    intro other member
    rcases List.mem_cons.mp member with rfl | later
    · exact first
    · exact ih ok other later

end Entorhinal
