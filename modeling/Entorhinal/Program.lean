import Mathlib.Data.List.Basic
import Mathlib.Logic.Function.Basic
import Entorhinal.Transition

/-! Programs of parties that share a world. A program performs one effect at a
time and goes on with its answer; between two effects the other parties act. A
party may crash anywhere, which drops the rest of its program. What a party
relies on between its effects, and owes the others at each of them, is a
relation on worlds. -/
namespace Entorhinal

inductive Program (ε : Type) (ρ : ε → Type) (α : Type) : Type
  | done (result : α)
  | perform (effect : ε) (next : ρ effect → Program ε ρ α)

namespace Program

variable {ε : Type} {ρ : ε → Type} {α β : Type}

def bind : Program ε ρ α → (α → Program ε ρ β) → Program ε ρ β
  | .done result, f => f result
  | .perform effect next, f => .perform effect fun answer => (next answer).bind f

end Program

/-- A program over a local state that may end with a failure. The local state
outlives the failure. -/
def Task (ε : Type) (ρ : ε → Type) (ν φ α : Type) : Type := ν → Program ε ρ (Except φ α × ν)

namespace Task

variable {ε : Type} {ρ : ε → Type} {ν φ α β : Type}

instance : Monad (Task ε ρ ν φ) where
  pure a := fun l => .done (.ok a,l)
  bind m f := fun l => (m l).bind fun
    | (.ok a,l') => f a l'
    | (.error e,l') => .done (.error e,l')

def fail (failure : φ) : Task ε ρ ν φ α := fun l => .done (.error failure,l)

def look : Task ε ρ ν φ ν := fun l => .done (.ok l,l)

def edit (change : ν → ν) : Task ε ρ ν φ Unit := fun l => .done (.ok (),change l)

def effect (e : ε) : Task ε ρ ν φ (ρ e) := fun l => .perform e fun answer => .done (.ok answer,l)

/-- Runs a task and hands its failure on as a value. -/
def attempt (m : Task ε ρ ν φ α) : Task ε ρ ν φ (Except φ α) := fun l =>
  (m l).bind fun r => .done (.ok r.1,r.2)

/-- Runs the body for each element in order. -/
def each : List β → (β → Task ε ρ ν φ Unit) → Task ε ρ ν φ Unit
  | [], _ => pure ()
  | b :: rest, body => do body b; each rest body

end Task

/-- What one party may rely on and what it owes. -/
structure Discipline (σ ε : Type) (ρ : ε → Type) (κ : Type) where
  act : σ → (e : ε) → κ → Option (ρ e × σ)
  inv : σ → Prop
  rely : σ → σ → Prop
  owes : σ → σ → Prop
  refl : ∀ s, rely s s
  trans : ∀ {a b c}, rely a b → rely b c → rely a c

namespace Discipline

variable {σ ε : Type} {ρ : ε → Type} {κ α β : Type} {D : Discipline σ ε ρ κ}

/-- However the others act between its effects, the program keeps the invariant,
owes nothing at each effect and ends with the postcondition. -/
def Safe (D : Discipline σ ε ρ κ) : Program ε ρ α → (α → σ → Prop) → σ → Prop
  | .done result, post, s => post result s
  | .perform effect next, post, s => ∀ s', D.rely s s' → D.inv s' → ∀ choice answer s'',
      D.act s' effect choice = some (answer,s'') →
      D.inv s'' ∧ D.owes s' s'' ∧ D.Safe (next answer) post s''

theorem Safe.weaken {p : Program ε ρ α} {post post' : α → σ → Prop} {s : σ}
    (safe : D.Safe p post s) (weaker : ∀ a s, post a s → post' a s) : D.Safe p post' s := by
  induction p generalizing s with
  | done result => exact weaker result s safe
  | perform effect next ih =>
    intro s' relied holds choice answer s'' taken
    have ⟨kept,owed,rest⟩ := safe s' relied holds choice answer s'' taken
    exact ⟨kept,owed,ih answer rest⟩

theorem Safe.bind {p : Program ε ρ α} {f : α → Program ε ρ β} {middle : α → σ → Prop}
    {post : β → σ → Prop} {s : σ} (first : D.Safe p middle s)
    (second : ∀ a s, middle a s → D.Safe (f a) post s) : D.Safe (p.bind f) post s := by
  induction p generalizing s with
  | done result => exact second result s first
  | perform effect next ih =>
    intro s' relied holds choice answer s'' taken
    have ⟨kept,owed,rest⟩ := first s' relied holds choice answer s'' taken
    exact ⟨kept,owed,ih answer rest⟩

/-- What others do leaves a waiting program safe. -/
theorem Safe.later {p : Program ε ρ α} {s s' : σ} (safe : D.Safe p (fun _ _ => True) s)
    (relied : D.rely s s') : D.Safe p (fun _ _ => True) s' := by
  cases p with
  | done result => trivial
  | perform effect next => exact fun s'' later => safe s'' (D.trans relied later)

end Discipline

section Triples

variable {σ ε : Type} {ρ : ε → Type} {κ ν φ α β : Type}

/-- From `P` the task ends in `Q`, or fails in `E`. -/
def Keeps (D : Discipline σ ε ρ κ) (P : ν → σ → Prop) (m : Task ε ρ ν φ α)
    (Q : α → ν → σ → Prop) (E : φ → ν → σ → Prop) : Prop :=
  ∀ l s, P l s → D.Safe (m l) (fun r s => match r.1 with
    | .ok a => Q a r.2 s
    | .error e => E e r.2 s) s

/-- What every program keeps that moves the local state and the world on in this way. -/
def Lasting (later : ν → σ → ν → σ → Prop) (F : ν → σ → Prop) : Prop :=
  ∀ l s l' s', later l s l' s' → F l s → F l' s'

/-- A triple with the frame rule built in: lasting facts hold throughout. -/
def Framed (D : Discipline σ ε ρ κ) (later : ν → σ → ν → σ → Prop) (P : ν → σ → Prop)
    (m : Task ε ρ ν φ α) (Q : α → ν → σ → Prop) (E : φ → ν → σ → Prop) : Prop :=
  ∀ F, Lasting later F → Keeps D (fun l s => P l s ∧ F l s) m (fun a l s => Q a l s ∧ F l s)
    (fun e l s => E e l s ∧ F l s)

variable {D : Discipline σ ε ρ κ} {P P' : ν → σ → Prop} {Q Q' : α → ν → σ → Prop}
variable {R : β → ν → σ → Prop} {E E' : φ → ν → σ → Prop}

namespace Keeps

theorem bind {m : Task ε ρ ν φ α} {f : α → Task ε ρ ν φ β} (first : Keeps D P m Q E)
    (second : ∀ a, Keeps D (Q a) (f a) R E) : Keeps D P (m >>= f) R E := by
  intro l s holds
  refine Discipline.Safe.bind (first l s holds) ?_
  rintro ⟨result,l'⟩ s' reached
  cases result with
  | error e => exact reached
  | ok a => exact second a l' s' reached

theorem attempt {m : Task ε ρ ν φ α} {Q' : Except φ α → ν → σ → Prop}
    (first : Keeps D P m Q E) (ok : ∀ a l s, Q a l s → Q' (.ok a) l s)
    (failed : ∀ e l s, E e l s → Q' (.error e) l s) : Keeps D P m.attempt Q' E' := by
  intro l s holds
  refine Discipline.Safe.bind (first l s holds) ?_
  rintro ⟨result,l'⟩ s' reached
  cases result with
  | ok a => exact ok a l' s' reached
  | error e => exact failed e l' s' reached

theorem consequence {m : Task ε ρ ν φ α} (inner : Keeps D P m Q E)
    (before : ∀ l s, P' l s → P l s) (after : ∀ a l s, Q a l s → Q' a l s)
    (failed : ∀ e l s, E e l s → E' e l s) : Keeps D P' m Q' E' := by
  intro l s holds
  refine (inner l s (before l s holds)).weaken ?_
  rintro ⟨result,l'⟩ s' reached
  cases result with
  | ok a => exact after a l' s' reached
  | error e => exact failed e l' s' reached

end Keeps

namespace Framed

variable {later later' : ν → σ → ν → σ → Prop}

theorem pure {a : α} (holds : ∀ l s, P l s → Q a l s) :
    Framed D later P (pure a : Task ε ρ ν φ α) Q E :=
  fun _ _ l s before => ⟨holds l s before.1,before.2⟩

theorem fail {e : φ} (holds : ∀ l s, P l s → E e l s) :
    Framed D later P (Task.fail e : Task ε ρ ν φ α) Q E :=
  fun _ _ l s before => ⟨holds l s before.1,before.2⟩

theorem bind {m : Task ε ρ ν φ α} {f : α → Task ε ρ ν φ β} (first : Framed D later P m Q E)
    (second : ∀ a, Framed D later (Q a) (f a) R E) : Framed D later P (m >>= f) R E :=
  fun F lasting => (first F lasting).bind fun a => second a F lasting

theorem look {f : ν → Task ε ρ ν φ α} (rest : ∀ l₀, Framed D later (fun l s => P l s ∧ l = l₀) (f l₀) Q E) :
    Framed D later P (Task.look >>= f) Q E :=
  fun F lasting l s before => rest l F lasting l s ⟨⟨before.1,rfl⟩,before.2⟩

theorem edit {change : ν → ν} {Q : Unit → ν → σ → Prop} (moved : ∀ l s, P l s → later l s (change l) s)
    (holds : ∀ l s, P l s → Q () (change l) s) :
    Framed D later P (Task.edit change : Task ε ρ ν φ Unit) Q E :=
  fun _ lasting l s before => ⟨holds l s before.1,lasting l s _ s (moved l s before.1) before.2⟩

/-- An effect comes after what the others did meanwhile. -/
theorem effect {e : ε} {Q : ρ e → ν → σ → Prop}
    (waits : ∀ l s s', P l s → D.rely s s' → D.inv s' → P l s' ∧ later l s l s')
    (acts : ∀ l s, P l s → D.inv s → ∀ choice answer s', D.act s e choice = some (answer,s') →
      D.inv s' ∧ D.owes s s' ∧ Q answer l s' ∧ later l s l s') :
    Framed D later P (Task.effect e : Task ε ρ ν φ (ρ e)) Q E := by
  intro F lasting l s before s' relied holds choice answer s'' taken
  have ⟨meanwhile,moved⟩ := waits l s s' before.1 relied holds
  have ⟨kept,owed,after,on⟩ := acts l s' meanwhile holds choice answer s'' taken
  exact ⟨kept,owed,after,lasting _ _ _ _ on (lasting _ _ _ _ moved before.2)⟩

theorem attempt {m : Task ε ρ ν φ α} {Q' : Except φ α → ν → σ → Prop}
    (first : Framed D later P m Q E) (ok : ∀ a l s, Q a l s → Q' (.ok a) l s)
    (failed : ∀ e l s, E e l s → Q' (.error e) l s) : Framed D later P m.attempt Q' E' :=
  fun F lasting => (first F lasting).attempt (fun a l s reached => ⟨ok a l s reached.1,reached.2⟩)
    (fun e l s reached => ⟨failed e l s reached.1,reached.2⟩)

theorem consequence {m : Task ε ρ ν φ α} (inner : Framed D later P m Q E)
    (before : ∀ l s, P' l s → P l s) (after : ∀ a l s, Q a l s → Q' a l s)
    (failed : ∀ e l s, E e l s → E' e l s) : Framed D later P' m Q' E' :=
  fun F lasting => (inner F lasting).consequence (fun l s holds => ⟨before l s holds.1,holds.2⟩)
    (fun a l s reached => ⟨after a l s reached.1,reached.2⟩)
    (fun e l s reached => ⟨failed e l s reached.1,reached.2⟩)

theorem frame {m : Task ε ρ ν φ α} {F : ν → σ → Prop} (inner : Framed D later P m Q E)
    (lasting : Lasting later F) :
    Framed D later (fun l s => P l s ∧ F l s) m (fun a l s => Q a l s ∧ F l s) E := by
  intro G further
  have both : Lasting later fun l s => F l s ∧ G l s :=
    fun l s l' s' moved holds => ⟨lasting l s l' s' moved holds.1,further l s l' s' moved holds.2⟩
  exact (inner _ both).consequence (fun _ _ holds => ⟨holds.1.1,holds.1.2,holds.2⟩)
    (fun _ _ _ holds => ⟨⟨holds.1,holds.2.1⟩,holds.2.2⟩) (fun _ _ _ holds => ⟨holds.1,holds.2.2⟩)

/-- What the precondition says of neither state may be assumed. -/
theorem known {m : Task ε ρ ν φ α} {p : Prop} (fact : ∀ l s, P l s → p) (rest : p → Framed D later P m Q E) :
    Framed D later P m Q E :=
  fun F lasting l s holds => rest (fact l s holds.1) F lasting l s holds

/-- A program that moves things on less keeps more. -/
theorem widen {m : Task ε ρ ν φ α} (inner : Framed D later P m Q E)
    (wider : ∀ l s l' s', later l s l' s' → later' l s l' s') : Framed D later' P m Q E :=
  fun F lasting => inner F fun l s l' s' moved => lasting l s l' s' (wider l s l' s' moved)

/-- A loop keeps what its body keeps. -/
theorem each {items : List β} {body : β → Task ε ρ ν φ Unit}
    (step : ∀ b ∈ items, Framed D later P (body b) (fun _ => P) E) :
    Framed D later P (Task.each items body) (fun _ => P) E := by
  induction items with
  | nil => exact pure fun _ _ holds => holds
  | cons b rest ih =>
    refine bind (step b List.mem_cons_self) fun _ => ?_
    exact ih fun b' member => step b' (List.mem_cons_of_mem _ member)

theorem safe {m : Task ε ρ ν φ α} {l : ν} {s : σ} (framed : Framed D later P m Q E) (holds : P l s) :
    D.Safe (m l) (fun _ _ => True) s :=
  (framed (fun _ _ => True) (fun _ _ _ _ _ => id) l s ⟨holds,trivial⟩).weaken fun _ _ _ => trivial

end Framed
end Triples

/-- Parties that share a world, each driven by one program at a time, and what
else changes the world. -/
structure Parties (π σ ε : Type) (ρ : ε → Type) (κ μ ω : Type) where
  act : π → σ → (e : ε) → κ → Option (ρ e × σ)
  start : μ
  tick : π → μ → Program ε ρ μ
  outside : σ → ω → Option σ

namespace Parties

variable {π σ ε : Type} {ρ : ε → Type} {κ μ ω : Type}

inductive Activity (ε : Type) (ρ : ε → Type) (μ : Type)
  | idle (memory : μ)
  | running (program : Program ε ρ μ)

structure Config (π σ ε : Type) (ρ : ε → Type) (μ : Type) where
  world : σ
  parties : π → Activity ε ρ μ

inductive Label (π κ ω : Type)
  | begin (p : π)
  | act (p : π) (choice : κ)
  | finish (p : π)
  | crash (p : π)
  | outside (event : ω)

variable [DecidableEq π]

def next (P : Parties π σ ε ρ κ μ ω) (c : Config π σ ε ρ μ) :
    Label π κ ω → Option (Config π σ ε ρ μ)
  | .begin p => match c.parties p with
    | .idle memory => some ⟨c.world,Function.update c.parties p (.running (P.tick p memory))⟩
    | .running _ => none
  | .act p choice => match c.parties p with
    | .running (.perform effect next) => (P.act p c.world effect choice).map fun r =>
      ⟨r.2,Function.update c.parties p (.running (next r.1))⟩
    | _ => none
  | .finish p => match c.parties p with
    | .running (.done memory) => some ⟨c.world,Function.update c.parties p (.idle memory)⟩
    | _ => none
  | .crash p => some ⟨c.world,Function.update c.parties p (.idle P.start)⟩
  | .outside event => (P.outside c.world event).map fun world => ⟨world,c.parties⟩

/-- The world before anything ran. -/
def initial (P : Parties π σ ε ρ κ μ ω) (world : σ) : Config π σ ε ρ μ := ⟨world,fun _ => .idle P.start⟩

/-- One invariant, and a rely of each party; a party owes the others theirs. -/
structure Pact (P : Parties π σ ε ρ κ μ ω) where
  inv : σ → Prop
  rely : π → σ → σ → Prop
  refl : ∀ p s, rely p s s
  trans : ∀ p {a b c}, rely p a b → rely p b c → rely p a c

namespace Pact

variable {P : Parties π σ ε ρ κ μ ω}

def discipline (A : P.Pact) (p : π) : Discipline σ ε ρ κ where
  act := P.act p
  inv := A.inv
  rely := A.rely p
  owes := fun s s' => ∀ q, q ≠ p → A.rely q s s'
  refl := A.refl p
  trans := A.trans p

/-- Every running program is safe where it stands. -/
structure Sound (A : P.Pact) (c : Config π σ ε ρ μ) : Prop where
  holds : A.inv c.world
  safe : ∀ p program, c.parties p = .running program →
    (A.discipline p).Safe program (fun _ _ => True) c.world

theorem Sound.step {A : P.Pact} {c c' : Config π σ ε ρ μ} {label : Label π κ ω} (sound : A.Sound c)
    (ticks : ∀ p memory s, A.inv s → (A.discipline p).Safe (P.tick p memory) (fun _ _ => True) s)
    (outside : ∀ s event s', A.inv s → P.outside s event = some s' →
      A.inv s' ∧ ∀ p, A.rely p s s')
    (taken : P.next c label = some c') : A.Sound c' := by
  have others : ∀ {p : π} {activity : Activity ε ρ μ} {world : σ},
      (∀ q, q ≠ p → A.rely q c.world world) → ∀ q program, q ≠ p →
      Function.update c.parties p activity q = .running program →
      (A.discipline q).Safe program (fun _ _ => True) world := by
    intro p activity world owed q program other running
    rw [Function.update_of_ne other] at running
    exact (sound.safe q program running).later (owed q other)
  cases label with
  | begin p =>
    cases current : c.parties p with
    | running program => simp [next,current] at taken
    | idle memory =>
      simp only [next,current,Option.some.injEq] at taken
      subst taken
      refine ⟨sound.holds,fun q program running => ?_⟩
      by_cases same : q = p
      · subst same
        simp only [Function.update_self,Activity.running.injEq] at running
        subst running
        exact ticks q memory c.world sound.holds
      · exact others (fun q _ => A.refl q _) q program same running
  | act p choice =>
    cases current : c.parties p with
    | idle memory => simp [next,current] at taken
    | running program =>
      cases program with
      | done memory => simp [next,current] at taken
      | perform effect rest =>
        simp only [next,current,Option.map_eq_some_iff] at taken
        obtain ⟨⟨answer,world⟩,acted,rfl⟩ := taken
        have ⟨kept,owed,after⟩ := sound.safe p _ current c.world (A.refl p _) sound.holds choice
          answer world acted
        refine ⟨kept,fun q program running => ?_⟩
        by_cases same : q = p
        · subst same
          simp only [Function.update_self,Activity.running.injEq] at running
          subst running
          exact after
        · exact others owed q program same running
  | finish p =>
    cases current : c.parties p with
    | idle memory => simp [next,current] at taken
    | running program =>
      cases program with
      | perform effect rest => simp [next,current] at taken
      | done memory =>
        simp only [next,current,Option.some.injEq] at taken
        subst taken
        refine ⟨sound.holds,fun q program running => ?_⟩
        by_cases same : q = p
        · subst same
          simp at running
        · exact others (fun q _ => A.refl q _) q program same running
  | crash p =>
    simp only [next,Option.some.injEq] at taken
    subst taken
    refine ⟨sound.holds,fun q program running => ?_⟩
    by_cases same : q = p
    · subst same
      simp at running
    · exact others (fun q _ => A.refl q _) q program same running
  | outside event =>
    simp only [next,Option.map_eq_some_iff] at taken
    obtain ⟨world,happened,rfl⟩ := taken
    have ⟨kept,relied⟩ := outside c.world event world sound.holds happened
    exact ⟨kept,fun q program running => (sound.safe q program running).later (relied q)⟩

/-- The rule for whole runs: programs that are each safe from the invariant keep
it together, in every interleaving and across crashes. -/
theorem run {A : P.Pact} {world : σ} {c : Config π σ ε ρ μ}
    (ticks : ∀ p memory s, A.inv s → (A.discipline p).Safe (P.tick p memory) (fun _ _ => True) s)
    (outside : ∀ s event s', A.inv s → P.outside s event = some s' →
      A.inv s' ∧ ∀ p, A.rely p s s')
    (holds : A.inv world) (reached : Transition.Reach P.next Transition.Free (P.initial world) c) :
    A.inv c.world := by
  have sound : A.Sound c := by
    refine reached.invariant A.Sound ⟨holds,fun p program running => ?_⟩ ?_
    · simp [initial] at running
    · exact fun c label c' sound _ taken => sound.step ticks outside taken
  exact sound.holds

end Pact
end Parties
end Entorhinal
