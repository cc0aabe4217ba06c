import Entorhinal.Carries

/-! What the text of a placement says of what it carries. -/
namespace Entorhinal.Approvals

open DebugText (quote_cut digits_cut)

section Cut
variable {plain : Char → Bool}

theorem joined_single (separator part : List Char) : joined separator [part] = part := List.append_nil _

theorem joined_cons (separator part next : List Char) (rest : List (List Char)) :
    joined separator (part :: next :: rest) = part ++ (separator ++ joined separator (next :: rest)) := by
  rw [joined,List.intersperse_cons_cons,List.flatten_cons,List.flatten_cons]
  rfl

/-- What follows is neither another name nor a list of names. -/
def Closed (x : List Char) : Prop := ∀ c ∈ x.head?, c ≠ ',' ∧ c ≠ ':'

theorem closed_ne {x y : List Char} (closed : Closed x) : x ≠ ',' :: y ∧ x ≠ ':' :: y := by
  constructor
  · rintro rfl
    exact (closed ',' rfl).1 rfl
  · rintro rfl
    exact (closed ':' rfl).2 rfl

theorem names_cut {names others : List String} {x y : List Char} (some_ : names ≠ []) (other : others ≠ [])
    (left : Closed x) (right : Closed y)
    (same : joined ", ".toList (names.map (quoted plain)) ++ x = joined ", ".toList (others.map (quoted plain)) ++ y) :
    names = others ∧ x = y := by
  induction names generalizing others with
  | nil => exact absurd rfl some_
  | cons a names ih =>
    match others,other with
    | b :: others,_ =>
      match names,others with
      | [],[] =>
        simp only [List.map_cons,List.map_nil,joined_single] at same
        obtain ⟨rfl,tail⟩ := quote_cut same
        exact ⟨rfl,tail⟩
      | [],b' :: others =>
        simp only [List.map_cons,List.map_nil,joined_single,joined_cons,List.append_assoc] at same
        exact absurd (quote_cut same).2 (closed_ne left).1
      | a' :: names,[] =>
        simp only [List.map_cons,List.map_nil,joined_single,joined_cons,List.append_assoc] at same
        exact absurd (quote_cut same).2.symm (closed_ne right).1
      | a' :: names,b' :: others =>
        simp only [List.map_cons,joined_cons,List.append_assoc] at same
        obtain ⟨rfl,tail⟩ := quote_cut same
        have rest := List.append_cancel_left tail
        obtain ⟨names_,tail⟩ := ih (List.cons_ne_nil _ _) (List.cons_ne_nil _ _) rest
        exact ⟨by rw [names_],tail⟩

theorem clause_cut {p p' w w' : String} {names names' : List String} {x y : List Char} (left : Closed x)
    (right : Closed y) (same : clauseText plain p w names ++ x = clauseText plain p' w' names' ++ y) :
    (p,w,names) = (p',w',names') ∧ x = y := by
  unfold clauseText at same
  simp only [List.append_assoc] at same
  obtain ⟨project,same⟩ := quote_cut (List.append_cancel_left same)
  obtain ⟨workspace,same⟩ := quote_cut (List.append_cancel_left same)
  rw [project,workspace]
  by_cases none_ : names = []
  · by_cases none' : names' = []
    · rw [if_pos none_,if_pos none'] at same
      exact ⟨by rw [none_,none'],same⟩
    · rw [if_pos none_,if_neg none'] at same
      exact absurd same (closed_ne left).2
  · by_cases none' : names' = []
    · rw [if_neg none_,if_pos none'] at same
      exact absurd same.symm (closed_ne right).2
    · rw [if_neg none_,if_neg none',List.append_assoc,List.append_assoc] at same
      obtain ⟨rfl,tail⟩ := names_cut none_ none' left right (List.append_cancel_left same)
      exact ⟨rfl,tail⟩

abbrev Clause := String × String × List String

def body (plain : Char → Bool) (parts : List Clause) : List Char :=
  joined "; ".toList (parts.map fun c => clauseText plain c.1 c.2.1 c.2.2)

/-- What follows the clauses is no other clause. -/
structure Ends (x : List Char) : Prop where
  closed : Closed x
  last : ∀ y, x ≠ ';' :: ' ' :: 'm' :: y

theorem body_cons (c d : Clause) (rest : List Clause) :
    body plain (c :: d :: rest) = clauseText plain c.1 c.2.1 c.2.2 ++ ("; ".toList ++ body plain (d :: rest)) := by
  rw [body,List.map_cons,List.map_cons,joined_cons]
  rfl

theorem body_single (c : Clause) : body plain [c] = clauseText plain c.1 c.2.1 c.2.2 := joined_single _ _

theorem body_open (c : Clause) (rest : List Clause) (x : List Char) :
    ∃ y, "; ".toList ++ (body plain (c :: rest) ++ x) = ';' :: ' ' :: 'm' :: y := by
  cases rest with
  | nil =>
    rw [body_single]
    exact ⟨_,rfl⟩
  | cons d rest =>
    rw [body_cons]
    exact ⟨_,rfl⟩

theorem closed_next (x : List Char) : Closed ("; ".toList ++ x) := by
  intro c is
  obtain rfl : ';' = c := Option.some.inj is
  decide

theorem parts_cut {parts parts' : List Clause} {x y : List Char} (some_ : parts ≠ []) (some' : parts' ≠ [])
    (left : Ends x) (right : Ends y) (same : body plain parts ++ x = body plain parts' ++ y) :
    parts = parts' ∧ x = y := by
  induction parts generalizing parts' with
  | nil => exact absurd rfl some_
  | cons c parts ih =>
    match parts',some' with
    | d :: parts',_ =>
      match parts,parts' with
      | [],[] =>
        rw [body_single,body_single] at same
        obtain ⟨first,tail⟩ := clause_cut left.closed right.closed same
        exact ⟨by rw [show c = d from first],tail⟩
      | [],d' :: parts' =>
        rw [body_single,body_cons,List.append_assoc,List.append_assoc] at same
        obtain ⟨y',opened⟩ := @body_open plain d' parts' y
        exact absurd ((clause_cut left.closed (closed_next _) same).2.trans opened) (left.last y')
      | c' :: parts,[] =>
        rw [body_single,body_cons,List.append_assoc,List.append_assoc] at same
        obtain ⟨y',opened⟩ := @body_open plain c' parts x
        exact absurd ((clause_cut (closed_next _) right.closed same).2.symm.trans opened) (right.last y')
      | c' :: parts,d' :: parts' =>
        rw [body_cons,body_cons] at same
        simp only [List.append_assoc] at same
        obtain ⟨first,tail⟩ := clause_cut (closed_next _) (closed_next _) same
        obtain ⟨rest,tail⟩ := ih (List.cons_ne_nil _ _) (List.cons_ne_nil _ _) (List.append_cancel_left tail)
        exact ⟨by rw [show c = d from first,rest],tail⟩

/-- What follows a number of hidden names: nothing, or a change of domain. -/
def Tail (x : List Char) : Prop := x = [] ∨ ∃ y, x = "; set domain of project ".toList ++ y

theorem more_ends {hidden : Nat} {x : List Char} (tail : Tail x) : Ends (moreText hidden ++ x) := by
  unfold moreText
  split_ifs
  · rcases tail with rfl | ⟨y,rfl⟩
    · exact ⟨nofun,nofun⟩
    · exact ⟨fun c is => by obtain rfl : ';' = c := Option.some.inj is; decide,fun y' same => by simp at same⟩
  · exact ⟨fun c is => by obtain rfl : ' ' = c := Option.some.inj is; decide,fun y' same => by simp at same⟩

theorem more_cut {hidden hidden' : Nat} {x y : List Char} (left : Tail x) (right : Tail y)
    (same : moreText hidden ++ x = moreText hidden' ++ y) : hidden = hidden' ∧ x = y := by
  have spaced : ∀ {n : Nat} {x y : List Char}, Tail x → n ≠ 0 → x ≠ moreText n ++ y := by
    rintro n x y tail some_ same
    rw [moreText,if_neg some_] at same
    rcases tail with rfl | ⟨y',rfl⟩
    · cases same
    · simp at same
  by_cases none_ : hidden = 0
  · by_cases none' : hidden' = 0
    · rw [none_,none'] at same
      exact ⟨none_.trans none'.symm,same⟩
    · rw [none_] at same
      exact absurd same (spaced left none')
  · by_cases none' : hidden' = 0
    · rw [none'] at same
      exact absurd same.symm (spaced right none_)
    · rw [moreText,moreText,if_neg none_,if_neg none'] at same
      simp only [List.append_assoc] at same
      obtain ⟨number,tail⟩ := digits_cut (c := ' ') (d := ' ') rfl rfl (List.append_cancel_left same)
      have last : " more".toList ++ x = " more".toList ++ y := tail
      exact ⟨number,List.append_cancel_left last⟩

end Cut

section Carry
variable {plain : Char → Bool}

/-- The projects carried, with their workspaces. -/
def places (carries : List Carry) : List (String × String) := carries.map fun carry => (carry.projectId,carry.workspaceId)

/-- The projects carried, with all the names carried of each. -/
def carriedNames (carries : List Carry) : List Clause :=
  carries.map fun carry => (carry.projectId,carry.workspaceId,carry.moves.map fun move => move.row.name)

theorem clauses_places (left : Nat) (carries : List Carry) :
    (clauses left carries).map (fun c => (c.1,c.2.1)) = places carries := by
  induction carries generalizing left with
  | nil => rfl
  | cons carry rest ih =>
    rw [clauses,List.map_cons,ih]
    rfl

theorem clauses_shown (left : Nat) (carries : List Carry) :
    ((clauses left carries).map fun c => c.2.2.length).sum = min left (total carries) := by
  induction carries generalizing left with
  | nil => simp [clauses,total]
  | cons carry rest ih =>
    have whole : total (carry :: rest) = carry.moves.length + total rest := by
      rw [total,List.map_cons,List.sum_cons]
      rfl
    rw [clauses,List.map_cons,List.sum_cons,ih,List.length_map,List.length_take,whole]
    omega

theorem clauses_all {left : Nat} {carries : List Carry} (enough : total carries ≤ left) :
    clauses left carries = carriedNames carries := by
  induction carries generalizing left with
  | nil => rfl
  | cons carry rest ih =>
    rw [total,List.map_cons,List.sum_cons] at enough
    rw [clauses,Nat.min_eq_right (by omega),List.take_length,ih (by rw [total]; omega)]
    rfl

theorem shownOf_le {carries : List Carry} {shown : Nat} (found : shownOf plain carries = some shown) :
    shown ≤ total carries := by
  have member := List.mem_of_find?_eq_some found
  rw [List.mem_reverse,List.mem_range] at member
  omega

theorem carryText_eq (carries : List Carry) (shown : Nat) :
    carryText plain carries shown = body plain (clauses shown carries) ++ moreText (total carries - shown) := rfl

theorem clauses_ne {carries : List Carry} (some_ : carries ≠ []) (left : Nat) : clauses left carries ≠ [] := by
  cases carries with
  | nil => exact absurd rfl some_
  | cons carry rest => exact List.cons_ne_nil _ _

/-- Two carries with one text: the same projects to the same workspaces, as many agents, and the same
names among those shown; all of them where none is hidden. -/
structure SameCarry (plain : Char → Bool) (carries carries' : List Carry) : Prop where
  placed : places carries = places carries'
  many : total carries = total carries'
  shown : shownOf plain carries = shownOf plain carries'
  names : ∀ n, shownOf plain carries = some n → clauses n carries = clauses n carries'
  all : shownOf plain carries = some (total carries) → carriedNames carries = carriedNames carries'

theorem carry_same {carries carries' : List Carry} {shown shown' : Nat} {x y : List Char} (some_ : carries ≠ [])
    (some' : carries' ≠ []) (found : shownOf plain carries = some shown) (found' : shownOf plain carries' = some shown')
    (left : Tail x) (right : Tail y) (same : carryText plain carries shown ++ x = carryText plain carries' shown' ++ y) :
    SameCarry plain carries carries' ∧ x = y := by
  rw [carryText_eq,carryText_eq,List.append_assoc,List.append_assoc] at same
  obtain ⟨parts,tail⟩ := parts_cut (clauses_ne some_ _) (clauses_ne some' _) (more_ends left) (more_ends right) same
  obtain ⟨hidden,tail⟩ := more_cut left right tail
  have few := shownOf_le found
  have few' := shownOf_le found'
  have count := congrArg (fun parts : List Clause => (parts.map fun c => c.2.2.length).sum) parts
  simp only [clauses_shown] at count
  have shown_ : shown = shown' := by omega
  have many : total carries = total carries' := by omega
  refine ⟨⟨?_,many,by rw [found,found',shown_],?_,?_⟩,tail⟩
  · have placed := congrArg (fun parts : List Clause => parts.map fun c => (c.1,c.2.1)) parts
    simpa only [clauses_places] using placed
  · intro n is
    obtain rfl : shown = n := Option.some.inj (found.symm.trans is)
    rw [parts,shown_]
  · intro all
    obtain rfl : shown = total carries := Option.some.inj (found.symm.trans all)
    rw [clauses_all (le_refl _),clauses_all (by omega)] at parts
    exact parts

end Carry

section Placement
variable {plain : Char → Bool} {state state' : Identities} {carries carries' : List Carry} {text : List Char}

theorem domainSummary_ok {name : String} {value : Option String} (ok : domainSummary name value = .ok text) :
    ∃ y, text = "set domain of project ".toList ++ y := by
  unfold domainSummary at ok
  dsimp only at ok
  split_ifs at ok
  · cases ok
  · cases ok
    exact ⟨_,by rw [List.append_assoc,List.append_assoc]⟩

theorem carrySummary_ok (ok : carrySummary plain carries = .ok text) :
    ∃ shown, shownOf plain carries = some shown ∧ text = carryText plain carries shown := by
  unfold carrySummary at ok
  split at ok
  next shown found => cases ok; exact ⟨shown,found,rfl⟩
  next => cases ok

def domainTail (domain : Option (List Char)) : List Char := (domain.map fun domain => "; ".toList ++ domain).getD []

/-- What a text of a placement is: a change of domain alone, or a carry with or without one. -/
def Written (plain : Char → Bool) (carries : List Carry) (domain : Option (List Char)) (text : List Char) : Prop :=
  (ordered carries = [] ∧ domain = some text) ∨
    (ordered carries ≠ [] ∧ ∃ shown, shownOf plain (ordered carries) = some shown ∧
      text = carryText plain (ordered carries) shown ++ domainTail domain)

theorem placementText_ok {carrying : List Carry} {domain : Option (List Char)}
    (either_ : ¬(carrying = [] ∧ domain = none)) (ok : placementText plain carrying domain = .ok text) :
    (carrying = [] ∧ domain = some text) ∨ (carrying ≠ [] ∧ ∃ shown, shownOf plain carrying = some shown ∧
      text = carryText plain carrying shown ++ domainTail domain) := by
  cases carrying with
  | nil =>
    cases domain with
    | none => exact absurd ⟨rfl,rfl⟩ either_
    | some domain => cases ok; exact .inl ⟨rfl,rfl⟩
  | cons carry rest =>
    refine .inr ⟨List.cons_ne_nil _ _,?_⟩
    cases domain with
    | none =>
      obtain ⟨shown,found,rfl⟩ := carrySummary_ok ok
      exact ⟨shown,found,(List.append_nil _).symm⟩
    | some domain =>
      obtain ⟨part,carried,rfl⟩ := map_ok ok
      obtain ⟨shown,found,rfl⟩ := carrySummary_ok carried
      exact ⟨shown,found,rfl⟩

theorem placementSummary_ok {domain : Option (List Char)}
    (ok : placementSummary plain state carries domain = .ok (some text)) : Written plain carries domain text := by
  unfold placementSummary at ok
  dsimp only at ok
  by_cases neither : ordered carries = [] ∧ domain = none
  · rw [if_pos neither] at ok
    cases ok
  · rw [if_neg neither] at ok
    obtain ⟨_,_,ok⟩ := bind_ok ok
    obtain ⟨_,_,ok⟩ := bind_ok ok
    obtain ⟨written,made,ok⟩ := bind_ok ok
    split_ifs at ok
    · cases ok
    · cases ok
      exact placementText_ok neither made

/-- A text of a change of domain. -/
def DomainText (domain : Option (List Char)) : Prop := ∀ text ∈ domain, ∃ y, text = "set domain of project ".toList ++ y

theorem carryText_open (some_ : carries ≠ []) (shown : Nat) (x : List Char) :
    ∃ y, carryText plain carries shown ++ x = 'm' :: y := by
  cases carries with
  | nil => exact absurd rfl some_
  | cons carry rest =>
    rw [carryText_eq,clauses]
    cases clauses (shown - min shown carry.moves.length) rest with
    | nil => rw [body_single]; exact ⟨_,rfl⟩
    | cons d others => rw [body_cons]; exact ⟨_,rfl⟩

theorem domainTail_tail {domain : Option (List Char)} (texts : DomainText domain) : Tail (domainTail domain) := by
  cases domain with
  | none => exact .inl rfl
  | some text =>
    obtain ⟨y,rfl⟩ := texts text rfl
    exact .inr ⟨y,rfl⟩

theorem domainTail_inj {domain domain' : Option (List Char)} (same : domainTail domain = domainTail domain') :
    domain = domain' := by
  cases domain with
  | none =>
    cases domain' with
    | none => rfl
    | some text => cases same
  | some text =>
    cases domain' with
    | none => cases same
    | some text' => rw [List.append_cancel_left (show "; ".toList ++ text = "; ".toList ++ text' from same)]

/-- What two placements with one text do to the agents, as the text has it. -/
theorem written_same {domain domain' : Option (List Char)} (left : DomainText domain) (right : DomainText domain')
    (one : Written plain carries domain text) (other : Written plain carries' domain' text) :
    domain = domain' ∧ (ordered carries = [] ∧ ordered carries' = [] ∨
      SameCarry plain (ordered carries) (ordered carries')) := by
  rcases one with ⟨none_,rfl⟩ | ⟨some_,shown,found,rfl⟩
  · rcases other with ⟨none',rfl⟩ | ⟨some',shown',found',is⟩
    · exact ⟨rfl,.inl ⟨none_,none'⟩⟩
    · obtain ⟨y,opened⟩ := @carryText_open plain _ some' shown' (domainTail domain')
      obtain ⟨z,named⟩ := left text rfl
      rw [is,opened] at named
      cases named
  · rcases other with ⟨none',rfl⟩ | ⟨some',shown',found',is⟩
    · obtain ⟨y,opened⟩ := @carryText_open plain _ some_ shown (domainTail domain)
      obtain ⟨z,named⟩ := right _ rfl
      rw [opened] at named
      cases named
    · obtain ⟨same,rest⟩ := carry_same some_ some' found found' (domainTail_tail left) (domainTail_tail right) is
      exact ⟨domainTail_inj rest,.inr same⟩

end Placement

end Entorhinal.Approvals
