import Entorhinal.ConsentPact

/-! Tool calls keep the pact: one lemma for each effect, one for each function of the call in its order, and
what follows for every interleaving of calls, crashes and late transactions. -/
namespace Entorhinal.Consent

variable {F π : Type} [DecidableEq F] {site : Site} {directory : Directory} {provider : Provider F}

section Effects

theorem hear_inv {m m' : Machine F π} {choice : Choice F} {reply : Reply F} (inv : Inv site provider directory m)
    (heard : hear m choice = some (reply,m')) :
    Inv site provider directory m' ∧ Grow m m' ∧ (∀ q, Rely q m m') ∧ m'.cards = m.cards ∧
      ∀ json, reply = .ok json → ∀ record ∈ recordsOf json, record ∈ m'.said := by
  unfold hear at heard
  split at heard
  next json =>
    split at heard
    next fair =>
      cases heard
      have grown : m.said ⊆ recordsOf json ++ m.said := fun _ => List.mem_append_right _
      have grow : Grow m { m with said := recordsOf json ++ m.said } := ⟨grown,fun _ => id⟩
      refine ⟨?_,grow,fun q => ⟨grow,fun _ _ => id⟩,rfl,?_⟩
      · refine { inv with settled := ?_, heard := ?_, late := ?_, commits := ?_ }
        · exact fun identity row answer here told => (inv.settled identity row answer here told).mono grown
        · intro record inside binding read
          rcases List.mem_append.mp inside with new | old
          · have fair := List.all_eq_true.mp fair record new
            rw [read] at fair
            exact List.contains_iff_mem.mp fair
          · exact inv.heard record old binding read
        · exact fun tx inside => (inv.late tx inside).mono grown
        · exact fun commit inside => ⟨(inv.commits commit inside).1.mono grown,(inv.commits commit inside).2⟩
      · intro json' same record inside
        cases same
        exact List.mem_append_left _ inside
    next => cases heard
  next e =>
    cases heard
    exact ⟨inv,.refl m,fun q => .refl q m,rfl,by intro json same; cases same⟩
  next => cases heard

/-- Showing a card uses up the right to show it. -/
theorem showTo_inv {m : Machine F π} {p : π} {binding : Binding} (inv : Inv site provider directory m)
    (held : m.cards.get? binding.identity.key = some (.held p binding.argsDigest)) :
    Inv site provider directory (showTo m binding) ∧ Grow m (showTo m binding) ∧ ∀ q, q ≠ p → Rely q m (showTo m binding) := by
  have grow : Grow m (showTo m binding) := ⟨fun _ => id,fun _ => id⟩
  have fresh : ∀ old ∈ m.shown, old.identity ≠ binding.identity := by
    intro old inside same
    have stands := (inv.shown old inside).1
    rw [same,held] at stands
    cases stands
  obtain ⟨row,present,digest⟩ := inv.there _ _ held
  refine ⟨?_,grow,fun q other => ⟨grow,?_⟩⟩
  · refine { inv with heard := ?_, recorded := ?_, dying := ?_, there := ?_, shown := ?_, once := ?_ }
    · exact fun record inside b read => List.mem_cons_of_mem _ (inv.heard record inside b read)
    · intro identity inside
      have dropped := inv.dying identity inside
      show (m.cards.insert _ _).get? _ = _
      rw [Table.get?_insert,if_neg]
      · exact dropped
      · intro same
        rw [same,held] at dropped
        cases dropped
    · intro key card here
      replace here : (m.cards.insert binding.identity.key .shown).get? key = some card := here
      rw [Table.get?_insert] at here
      split at here
      next same =>
        cases here
        exact ⟨row,same ▸ present,by intro _ _ other; cases other⟩
      next => exact inv.there key card here
    · intro old inside
      show (m.cards.insert _ _).get? _ = _ ∧ _
      rcases List.mem_cons.mp inside with rfl | inside
      · exact ⟨by rw [Table.get?_insert,if_pos rfl],row,present,digest _ _ rfl⟩
      · obtain ⟨stands,rest⟩ := inv.shown old inside
        refine ⟨?_,rest⟩
        rw [Table.get?_insert]
        split
        next => rfl
        next => exact stands
    · refine List.nodup_cons.mpr ⟨?_,inv.once⟩
      intro inside
      obtain ⟨old,inside,same⟩ := List.mem_map.mp inside
      exact fresh old inside same
    · exact fun page inside settling told =>
        ⟨List.mem_cons_of_mem _ (inv.recorded page inside settling told).1,(inv.recorded page inside settling told).2⟩
  · intro key d here
    show (m.cards.insert _ _).get? _ = _
    rw [Table.get?_insert,if_neg]
    · exact here
    · intro same
      rw [same,held] at here
      cases here
      exact other rfl

theorem later_inv {m : Machine F π} {p : π} {tx : Tx F} (inv : Inv site provider directory m) (brought : Brought provider m.said tx)
    (held : ∀ identity, tx.deletes = some identity → ∃ digest, m.cards.get? identity.key = some (.held p digest)) :
    Inv site provider directory (m.later tx) ∧ Grow m (m.later tx) ∧ ∀ q, q ≠ p → Rely q m (m.later tx) := by
  have grow : Grow m (m.later tx) := ⟨fun _ => id,fun _ => id⟩
  have late : ∀ old ∈ tx :: m.late, Brought provider m.said old := by
    intro old inside
    rcases List.mem_cons.mp inside with rfl | inside
    · exact brought
    · exact inv.late old inside
  cases deletes : tx.deletes with
  | none =>
    have same : m.later tx = { m with late := tx :: m.late } := by
      cases tx <;> first | rfl | cases deletes
    have names : (tx :: m.late).filterMap Tx.deletes = m.late.filterMap Tx.deletes := List.filterMap_cons_none deletes
    rw [same]
    refine ⟨{ inv with late := late, dying := ?_, alone := ?_ },⟨fun _ => id,fun _ => id⟩,fun q _ => ⟨⟨fun _ => id,fun _ => id⟩,fun _ _ => id⟩⟩
    · rw [names]
      exact inv.dying
    · rw [names]
      exact inv.alone
  | some identity =>
    obtain ⟨digest,right⟩ := held identity deletes
    have cards : (m.later tx).cards = m.cards.insert identity.key .dropped := by
      cases tx with
      | deleteAwaiting name =>
        cases deletes
        simp [Machine.later,dropCard,Table.has,right]
      | _ => cases deletes
    have names : (tx :: m.late).filterMap Tx.deletes = identity :: m.late.filterMap Tx.deletes :=
      List.filterMap_cons_some deletes
    have unlike : ∀ key card, m.cards.get? key = some card → (∀ q d, card ≠ .held q d) → key ≠ identity.key := by
      rintro key card here other rfl
      cases here.symm.trans right
      exact other p digest rfl
    refine ⟨{ inv with late := late, dying := ?_, alone := ?_, there := ?_, shown := ?_ },grow,fun q other => ⟨grow,?_⟩⟩
    · intro name inside
      have inside : name ∈ identity :: m.late.filterMap Tx.deletes := names ▸ inside
      rw [cards,Table.get?_insert]
      split
      next => rfl
      next apart =>
        rcases List.mem_cons.mp inside with rfl | inside
        · exact absurd rfl apart
        · exact inv.dying name inside
    · show ((tx :: m.late).filterMap Tx.deletes).Nodup
      rw [names]
      refine List.nodup_cons.mpr ⟨?_,inv.alone⟩
      intro inside
      cases (inv.dying identity inside).symm.trans right
    · intro key card here
      rw [cards,Table.get?_insert] at here
      split at here
      next same =>
        cases here
        obtain ⟨row,present,_⟩ := inv.there _ _ right
        exact ⟨row,same ▸ present,by intro _ _ other; cases other⟩
      next => exact inv.there key card here
    · intro binding inside
      obtain ⟨stands,rest⟩ := inv.shown binding inside
      have apart := unlike _ _ stands (by intro q d same; cases same)
      exact ⟨by rw [cards,Table.get?_insert,if_neg apart]; exact stands,rest⟩
    · intro key d here
      have apart : key ≠ identity.key := by
        rintro rfl
        cases here.symm.trans right
        exact other rfl
      rw [cards,Table.get?_insert,if_neg apart]
      exact here

/-- A call that holds the card of a request may delete it. -/
theorem mayDelete_held {m : Machine F π} {p : π} {identity : RequestIdentity} {digest : String} (inv : Inv site provider directory m)
    (held : m.cards.get? identity.key = some (.held p digest)) : MayDelete m (some p) identity where
  alone := by
    rintro other inside rfl
    cases (inv.dying other inside).symm.trans held
  hidden := by
    intro binding inside same
    have stands := (inv.shown binding inside).1
    rw [same,held] at stands
    cases stands
  unheld := by
    intro q d other here
    cases held.symm.trans here
    exact other rfl

end Effects

section Outside

theorem eraseIdx_inv {m : Machine F π} (inv : Inv site provider directory m) (n : Nat) : Inv site provider directory { m with late := m.late.eraseIdx n } := by
  have sub := (List.eraseIdx_sublist m.late n).filterMap Tx.deletes
  refine { inv with late := ?_, dying := ?_, alone := ?_ }
  · exact fun tx inside => inv.late tx ((List.eraseIdx_sublist m.late n).subset inside)
  · exact fun identity inside => inv.dying identity (sub.subset inside)
  · exact inv.alone.sublist sub

theorem outside_inv {m m' : Machine F π} {event : Outside F} (inv : Inv site provider directory m) (happened : outside site m event = some m') :
    Inv site provider directory m' ∧ ∀ p, Rely p m m' := by
  have calm : ∀ tx : Tx F, Brought provider m.said tx → tx.deletes = none → ∀ m', (m.apply site none tx).2 = m' →
      Inv site provider directory m' ∧ ∀ p, Rely p m m' := by
    rintro tx brought deletes m' rfl
    have ⟨inv',_,relied⟩ := apply_inv site none inv brought (by intro identity other; cases deletes.symm.trans other)
    exact ⟨inv',fun p => relied p (by intro same; cases same)⟩
  cases event with
  | revokeGrant id now =>
    exact calm (.revokeGrant id now) ⟨trivial,(by intro commit writes; cases writes),fun _ => trivial⟩ rfl m' (Option.some.inj happened)
  | setProjectHireCap project cap =>
    exact calm (.setProjectHireCap project cap) ⟨trivial,(by intro commit writes; cases writes),fun _ => trivial⟩ rfl m' (Option.some.inj happened)
  | elsewhere directory =>
    exact calm (.elsewhere directory) ⟨trivial,(by intro commit writes; cases writes),fun _ => trivial⟩ rfl m' (Option.some.inj happened)
  | late n =>
    cases here : m.late[n]? with
    | none =>
      rw [outside,here] at happened
      cases happened
    | some tx =>
      rw [outside,here] at happened
      cases happened
      have inside := List.mem_of_getElem? here
      have erased := eraseIdx_inv inv n
      have ⟨inv',grow,relied⟩ := apply_inv site none erased (inv.late tx inside) (by
        intro identity deletes
        have named : identity ∈ m.late.filterMap Tx.deletes := List.mem_filterMap.mpr ⟨tx,inside,deletes⟩
        have dropped := inv.dying identity named
        refine ⟨?_,?_,?_⟩
        · intro other rest same
          subst same
          have split' : m.late = m.late.take n ++ tx :: m.late.drop (n + 1) := by
            obtain ⟨bound,at'⟩ := List.getElem?_eq_some_iff.mp here
            rw [← at',List.cons_getElem_drop_succ,List.take_append_drop]
          have alone := inv.alone
          rw [split',List.filterMap_append,List.filterMap_cons_some deletes] at alone
          have rest : other ∈ (m.late.eraseIdx n).filterMap Tx.deletes := rest
          rw [List.eraseIdx_eq_take_drop_succ,List.filterMap_append] at rest
          have apart := (List.nodup_middle.mp alone)
          exact (List.nodup_cons.mp apart).1 rest
        · intro binding stands same
          have shown := (inv.shown binding stands).1
          rw [same,dropped] at shown
          cases shown
        · intro q digest _ held
          cases dropped.symm.trans held)
      exact ⟨inv',fun p => ⟨⟨grow.said,grow.saved⟩,(relied p (by intro same; cases same)).held⟩⟩

end Outside

section Triples
variable (site directory provider) (asked : π → Call F)

/-- The pact of all calls. -/
def pact : (calls site provider asked).Pact where
  inv := Inv site provider directory
  rely := Rely
  refl := Rely.refl
  trans := fun _ => Rely.trans

variable (p : π) {α : Type}

/-- From `P` the call goes on to `Q`, or fails; what only grows is kept throughout. -/
abbrev Does (P : Machine F π → Prop) (m : Act F α) (Q : α → Machine F π → Prop) : Prop :=
  Framed ((pact site directory provider asked).discipline p) (fun _ m _ m' => Grow m m') (fun _ => P) m (fun a _ => Q a)
    (fun _ _ _ => True)

/-- A fact that outlasts everything that happens. -/
def Lasts (P : Machine F π → Prop) : Prop := ∀ m m', P m → Grow m m' → P m'

/-- A fact that the other calls do not take away. -/
def Stable (P : Machine F π → Prop) : Prop := ∀ m m', P m → Rely p m m' → P m'

variable {site directory provider asked p} {P : Machine F π → Prop}

omit [DecidableEq F] in
theorem Lasts.stable (lasts : Lasts P) : Stable p P := fun m m' holds relied => lasts m m' holds relied.grow

theorem does_effect {e : Effect F} {Q : e.Result → Machine F π → Prop} (stable : Stable p P)
    (acts : ∀ m choice answer m', Inv site provider directory m → P m → act site p m e choice = some (answer,m') →
      Inv site provider directory m' ∧ Grow m m' ∧ (∀ q, q ≠ p → Rely q m m') ∧ Q answer m') :
    Does site directory provider asked p P (perform e) Q := by
  refine Framed.effect ?_ ?_
  · exact fun l m m' holds relied _ => ⟨stable m m' holds relied,relied.grow⟩
  · intro l m holds inv choice answer m' taken
    obtain ⟨inv',grow,relied,after⟩ := acts m choice answer m' inv holds taken
    exact ⟨inv',relied,after,grow⟩

/-- An effect that changes nothing. -/
theorem does_look {e : Effect F} {Q : e.Result → Machine F π → Prop} (stable : Stable p P)
    (same : ∀ m choice answer m', act site p m e choice = some (answer,m') → m' = m)
    (tells : ∀ m choice answer, Inv site provider directory m → P m → act site p m e choice = some (answer,m) → Q answer m) :
    Does site directory provider asked p P (perform e) Q := by
  refine does_effect stable ?_
  intro m choice answer m' inv holds taken
  cases same m choice answer m' taken
  exact ⟨inv,.refl m,fun q _ => .refl q m,tells m choice answer inv holds taken⟩

/-- A message whose reply is only heard. -/
theorem does_hear {e : Effect F} (is : e.Result = Reply F) (stable : Stable p P)
    (hears : ∀ m choice answer m', act site p m e choice = some (answer,m') → hear m choice = some (is ▸ answer,m')) :
    Does site directory provider asked p P (perform e)
      (fun answer m => P m ∧ ∀ json, is ▸ answer = Except.ok json → ∀ record ∈ recordsOf json, record ∈ m.said) := by
  refine does_effect stable ?_
  intro m choice answer m' inv holds taken
  obtain ⟨inv',grow,relied,_,told⟩ := hear_inv inv (hears m choice answer m' taken)
  exact ⟨inv',grow,fun q _ => relied q,stable m m' holds (relied p),told⟩

theorem does_lift {x : Except (HandlerError F) α} {Q : α → Machine F π → Prop}
    (holds : ∀ a m, x = .ok a → P m → Q a m) : Does site directory provider asked p P (lift x) Q := by
  cases x with
  | ok a => exact Framed.pure fun _ m before => holds a m rfl before
  | error e => exact Framed.fail fun _ _ _ => trivial

theorem does_before {m : Act F α} {P' : Machine F π → Prop} {Q : α → Machine F π → Prop}
    (inner : Does site directory provider asked p P m Q) (before : ∀ m, P' m → P m) : Does site directory provider asked p P' m Q :=
  inner.consequence (fun _ => before) (fun _ _ _ => id) fun _ _ _ => id

theorem does_clock (stable : Stable p P) : Does site directory provider asked p P clock (fun _ => P) := by
  refine does_look (e := .clock) stable ?_ fun _ _ _ _ holds _ => holds
  intro m choice answer m' taken
  cases choice with
  | clock now => exact (congrArg Prod.snd (Option.some.inj taken)).symm
  | _ => cases taken

omit [DecidableEq F] in
theorem reads_same {α : Type} {m m' : Machine F π} {value : Except AgentMutationError α} {choice : Choice F}
    {answer : Except (HandlerError F) α} (taken : reads m value choice = some (answer,m')) :
    m' = m ∧ ∀ a, answer = .ok a → value = .ok a := by
  cases choice with
  | run result =>
    cases taken
    exact ⟨rfl,fun a same => mapError_ok same⟩
  | lost e =>
    cases taken
    exact ⟨rfl,by intro a same; cases same⟩
  | _ => cases taken

/-- A transaction that runs now, later or never. -/
theorem does_tx_after {tx : Tx F} {Q : Except (HandlerError F) (Answer F) → Machine F π → Prop} (stable : Stable p P)
    (brought : ∀ m, P m → Brought provider m.said tx)
    (held : ∀ m, P m → ∀ identity, tx.deletes = some identity → ∃ digest, m.cards.get? identity.key = some (.held p digest))
    (ran : ∀ m answer s', Inv site provider directory m → P m → run site m.world.store tx = .ok (answer,s') →
      Q (.ok answer) (m.after (some p) tx answer s'))
    (lost : ∀ e m, Q (.error e) m) : Does site directory provider asked p P (perform (.tx tx)) Q := by
  refine does_effect (e := .tx tx) stable ?_
  intro m choice answer m' inv holds taken
  cases choice with
  | run result =>
    have applied : m.apply site (some p) tx = (answer,m') := Option.some.inj taken
    have may : ∀ identity, tx.deletes = some identity → MayDelete m (some p) identity := by
      intro identity deletes
      obtain ⟨digest,here⟩ := held m holds identity deletes
      exact mayDelete_held inv here
    have done := apply_inv site (some p) inv (brought m holds) may
    rw [applied] at done
    obtain ⟨inv',grow,relied⟩ := done
    refine ⟨inv',grow,fun q other => relied q (by simpa using other),?_⟩
    unfold Machine.apply at applied
    split at applied
    next told s' ok => cases applied; exact ran m told s' inv holds ok
    next => cases applied; exact lost _ _
  | lost e =>
    cases taken
    exact ⟨inv,.refl m,fun q _ => .refl q m,lost e m⟩
  | late e result =>
    cases taken
    obtain ⟨inv',grow,relied⟩ := later_inv inv (brought m holds) (held m holds)
    exact ⟨inv',grow,relied,lost e _⟩
  | _ => cases taken

/-- Whatever runs or does not run, what lasts is kept by a transaction that deletes nothing. -/
theorem does_tx {tx : Tx F} (lasts : Lasts P) (brought : ∀ m, P m → Brought provider m.said tx) (deletes : tx.deletes = none) :
    Does site directory provider asked p P (perform (.tx tx)) (fun _ => P) := by
  refine does_effect (e := .tx tx) lasts.stable ?_
  intro m choice answer m' inv holds taken
  have finish : Inv site provider directory m' ∧ Grow m m' ∧ (∀ q, q ≠ p → Rely q m m') →
      Inv site provider directory m' ∧ Grow m m' ∧ (∀ q, q ≠ p → Rely q m m') ∧ P m' := by
    rintro ⟨inv',grow,relied⟩
    exact ⟨inv',grow,relied,lasts m m' holds grow⟩
  have none' : ∀ {C : RequestIdentity → Prop}, ∀ identity, tx.deletes = some identity → C identity := by
    intro C identity other
    cases deletes.symm.trans other
  cases choice with
  | run result =>
    have applied : m.apply site (some p) tx = (answer,m') := Option.some.inj taken
    have done := apply_inv site (some p) inv (brought m holds) none'
    rw [applied] at done
    obtain ⟨inv',grow,relied⟩ := done
    exact finish ⟨inv',grow,fun q other => relied q (by simpa using other)⟩
  | lost e =>
    cases taken
    exact finish ⟨inv,.refl m,fun q _ => .refl q m⟩
  | late e result =>
    cases taken
    exact finish (later_inv inv (brought m holds) none')
  | _ => cases taken

theorem does_sql {tx : Tx F} (lasts : Lasts P) (brought : ∀ m, P m → Brought provider m.said tx) (deletes : tx.deletes = none) :
    Does site directory provider asked p P (sql tx) (fun _ => P) :=
  Framed.bind (does_tx lasts brought deletes) fun _ => does_lift fun _ _ _ holds => holds

end Triples

end Entorhinal.Consent
