import Mathlib.Data.List.Induction
import Mathlib.Data.List.Lex
import Mathlib.Data.Prod.Lex
import Mathlib.Data.Sum.Order
import Mathlib.Order.Compare
import Mathlib.Order.WithBot
import Entorhinal.Traverse
import Entorhinal.Semver

/-! The order of the versions is that of their precedence, and a version's text is the one it was
read from. -/
namespace Entorhinal.Semver

section Compares
variable {α β : Type} [LinearOrder α] [Preorder β] {a b : α} {x y : β} {o : Ordering}

theorem then_compares (rest : o.Compares x y) : ((compare a b).then o).Compares (toLex (a,x)) (toLex (b,y)) := by
  rcases lt_trichotomy a b with less | rfl | greater
  · rw [compare_lt_iff_lt.mpr less]
    exact Prod.Lex.lt_iff.mpr (.inl less)
  · rw [compare_eq_iff_eq.mpr rfl,Ordering.eq_then]
    cases o with
    | lt => exact Prod.Lex.lt_iff.mpr (.inr ⟨rfl,rest⟩)
    | eq => exact congrArg (fun z => toLex (a,z)) rest
    | gt => exact Prod.Lex.lt_iff.mpr (.inr ⟨rfl,rest⟩)
  · rw [compare_gt_iff_gt.mpr greater]
    exact Prod.Lex.lt_iff.mpr (.inl greater)

theorem compare_compares (a b : α) : (compare a b).Compares a b := by
  rcases lt_trichotomy a b with less | rfl | greater
  · rw [compare_lt_iff_lt.mpr less]
    exact less
  · rw [compare_eq_iff_eq.mpr rfl]
    rfl
  · rw [compare_gt_iff_gt.mpr greater]
    exact greater

end Compares

section Digits

/-- A number's text has digits only, and no zero before another digit. -/
structure Plain (text : List Char) : Prop where
  some_ : text ≠ []
  digits : ∀ c ∈ text, c.isDigit = true
  plain : text.head? = some '0' → text.length = 1

def value (text : List Char) : Nat := Nat.ofDigitChars 10 text 0

theorem digit_lt {c : Char} (digit : c.isDigit = true) : 48 ≤ c.toNat ∧ c.toNat - 48 < 10 := by
  rw [Char.isDigit_iff_toNat] at digit
  have ends : '0'.toNat = 48 ∧ '9'.toNat = 57 := by decide
  omega

theorem value_cons (c : Char) (rest : List Char) : value (c :: rest) = 10 ^ rest.length * (c.toNat - 48) + value rest := by
  rw [value,Nat.ofDigitChars_cons,Nat.ofDigitChars_eq_ofDigitChars_zero,value,Nat.mul_zero,Nat.zero_add]
  rfl

theorem value_lt {text : List Char} (digits : ∀ c ∈ text, c.isDigit = true) : value text < 10 ^ text.length := by
  induction text with
  | nil => exact Nat.one_pos
  | cons c rest ih =>
    have below := ih fun d member => digits d (List.mem_cons_of_mem _ member)
    have digit := (digit_lt (digits c List.mem_cons_self)).2
    rw [value_cons,List.length_cons,pow_succ]
    have whole : 10 ^ rest.length * (c.toNat - 48) ≤ 10 ^ rest.length * 9 := Nat.mul_le_mul_left _ (by omega)
    omega

theorem value_mono {text other : List Char} (digits : ∀ c ∈ text, c.isDigit = true) (digits' : ∀ c ∈ other, c.isDigit = true)
    (long : text.length = other.length) (less : text < other) : value text < value other := by
  induction text generalizing other with
  | nil =>
    obtain rfl := List.length_eq_zero_iff.mp long.symm
    exact absurd less (lt_irrefl _)
  | cons c rest ih =>
    obtain ⟨d,rest',rfl⟩ := List.exists_cons_of_length_eq_add_one (long.symm.trans (List.length_cons ..))
    have rests := fun e member => digits e (List.mem_cons_of_mem c member)
    have rests' := fun e member => digits' e (List.mem_cons_of_mem d member)
    have long : rest.length = rest'.length := Nat.succ_injective long
    rw [value_cons,value_cons,← long]
    rcases List.cons_lt_cons_iff.mp less with first | ⟨same,later⟩
    · have below := value_lt rests
      have first : c.toNat < d.toNat := first
      have low := (digit_lt (digits c List.mem_cons_self)).1
      have step : 10 ^ rest.length * (c.toNat - 48) + 10 ^ rest.length ≤ 10 ^ rest.length * (d.toNat - 48) := by
        rw [← Nat.mul_succ]
        exact Nat.mul_le_mul_left _ (by omega)
      omega
    · rw [same]
      exact Nat.add_lt_add_left (ih rests rests' long later) _

/-- A longer number is a greater one. -/
theorem value_longer {text other : List Char} (plain : Plain text) (plain' : Plain other) (short : text.length < other.length) :
    value text < value other := by
  have below := value_lt plain.digits
  cases other with
  | nil => exact absurd rfl plain'.some_
  | cons d rest =>
    have some_ := List.length_pos_of_ne_nil plain.some_
    rw [List.length_cons] at short
    have first : d ≠ '0' := fun zero => by
      have one := plain'.plain (congrArg some zero)
      rw [List.length_cons] at one
      omega
    have digit := (digit_lt (plain'.digits d List.mem_cons_self)).1
    have nonzero : d.toNat ≠ 48 := fun same => first (Char.toNat_inj.mp same)
    rw [value_cons]
    have power : 10 ^ text.length ≤ 10 ^ rest.length := Nat.pow_le_pow_right (by decide) (by omega)
    have whole : 10 ^ rest.length * 1 ≤ 10 ^ rest.length * (d.toNat - 48) := Nat.mul_le_mul_left _ (by omega)
    omega

theorem value_compares {x y : String} (plain : Plain x.toList) (plain' : Plain y.toList) :
    ((compare x.length y.length).then (compare x y)).Compares (value x.toList) (value y.toList) := by
  rw [← String.length_toList,← String.length_toList]
  rcases lt_trichotomy x.toList.length y.toList.length with shorter | long | longer
  · rw [compare_lt_iff_lt.mpr shorter]
    exact value_longer plain plain' shorter
  · rw [compare_eq_iff_eq.mpr long,Ordering.eq_then]
    rcases lt_trichotomy x y with less | rfl | greater
    · rw [compare_lt_iff_lt.mpr less]
      exact value_mono plain.digits plain'.digits long (String.lt_iff_toList_lt.mp less)
    · rw [compare_eq_iff_eq.mpr rfl]
      rfl
    · rw [compare_gt_iff_gt.mpr greater]
      exact value_mono plain'.digits plain.digits long.symm (String.lt_iff_toList_lt.mp greater)
  · rw [compare_gt_iff_gt.mpr longer]
    exact value_longer plain' plain longer

theorem digitChar_toNat {c : Char} (digit : c.isDigit = true) : Nat.digitChar (c.toNat - 48) = c := by
  obtain ⟨low,high⟩ := digit_lt digit
  have each : ∀ n < 10, (Nat.digitChar n).toNat = 48 + n := by decide
  exact Char.toNat_inj.mp ((each _ high).trans (by omega))

/-- A number is written in one way. -/
theorem digits_value {text : List Char} (plain : Plain text) : Nat.toDigits 10 (value text) = text := by
  induction text using List.reverseRecOn with
  | nil => exact absurd rfl plain.some_
  | append_singleton before c ih =>
    have digit := plain.digits c (List.mem_append_right _ (List.mem_singleton_self _))
    have last : [Nat.digitChar (c.toNat - 48)] = [c] := congrArg ([·]) (digitChar_toNat digit)
    cases before with
    | nil =>
      rw [List.nil_append,value_cons,value,Nat.ofDigitChars_nil,List.length_nil,pow_zero,Nat.one_mul,Nat.add_zero,
        Nat.toDigits_of_lt_base (digit_lt digit).2,last]
    | cons d rest =>
      have first : d ≠ '0' := fun zero => by
        have one := plain.plain (congrArg some zero)
        rw [List.length_append,List.length_cons,List.length_singleton] at one
        omega
      have digits : ∀ e ∈ d :: rest, e.isDigit = true := fun e member => plain.digits e (List.mem_append_left _ member)
      have earlier := ih ⟨List.cons_ne_nil _ _,digits,fun zero => absurd (Option.some.inj zero) first⟩
      have nonzero : 0 < value (d :: rest) := by
        have low := (digit_lt (digits d List.mem_cons_self)).1
        have other : d.toNat ≠ 48 := fun same => first (Char.toNat_inj.mp same)
        rw [value_cons]
        exact Nat.add_pos_left (Nat.mul_pos (Nat.pow_pos (by decide)) (by omega)) _
      have split : value (d :: rest ++ [c]) = 10 * value (d :: rest) + (c.toNat - 48) := by
        rw [value,Nat.ofDigitChars_append,Nat.ofDigitChars_cons,Nat.ofDigitChars_nil]
        rfl
      rw [split,← Nat.toDigits_append_toDigits (by decide) nonzero (digit_lt digit).2,earlier,
        Nat.toDigits_of_lt_base (digit_lt digit).2,last]

end Digits

section Precedence

/-- An identifier of digits is its number, below any other. -/
def identifier (id : String) : ℕ ⊕ₗ String :=
  if isNumeric id.toList then Sum.inlₗ (value id.toList) else Sum.inrₗ id

/-- What precedence goes by: the three numbers, then the identifiers, then that there are none. -/
def precedence (v : Version) : ℕ ×ₗ ℕ ×ₗ ℕ ×ₗ WithTop (List (ℕ ⊕ₗ String)) :=
  toLex (v.major,toLex (v.minor,toLex (v.patch,if v.pre.isEmpty then ⊤ else (v.pre.map identifier : List (ℕ ⊕ₗ String)))))

theorem plain_of {id : List Char} (valid : identifierInvalid id = false) (numeric : isNumeric id = true) : Plain id := by
  unfold identifierInvalid at valid
  rw [Bool.or_eq_false_iff,Bool.or_eq_false_iff,numeric,Bool.true_and] at valid
  obtain ⟨⟨some_,_⟩,zero⟩ := valid
  have nonempty : id ≠ [] := List.isEmpty_eq_false_iff.mp some_
  refine ⟨nonempty,List.all_eq_true.mp numeric,fun first => ?_⟩
  rw [first,beq_self_eq_true,Bool.and_true,decide_eq_false_iff_not,not_lt] at zero
  have pos := List.length_pos_of_ne_nil nonempty
  omega

theorem compareIds_compares {x y : String} (valid : identifierInvalid x.toList = false) (valid' : identifierInvalid y.toList = false) :
    (compareIds x y).Compares (identifier x) (identifier y) := by
  unfold compareIds identifier
  cases left : isNumeric x.toList <;> cases right : isNumeric y.toList
  · have order := compare_compares x y
    dsimp only
    rw [if_neg Bool.false_ne_true,if_neg Bool.false_ne_true]
    cases is : compare x y with
    | lt => rw [is] at order; exact Sum.Lex.inr_lt_inr_iff.mpr order
    | eq => rw [is] at order; exact congrArg Sum.inrₗ order
    | gt => rw [is] at order; exact Sum.Lex.inr_lt_inr_iff.mpr order
  · exact Sum.Lex.inl_lt_inr _ _
  · exact Sum.Lex.inl_lt_inr _ _
  · have order := value_compares (plain_of valid left) (plain_of valid' right)
    dsimp only
    rw [if_pos rfl,if_pos rfl]
    cases is : (compare x.length y.length).then (compare x y) with
    | lt => rw [is] at order; exact Sum.Lex.inl_lt_inl_iff.mpr order
    | eq => rw [is] at order; exact congrArg Sum.inlₗ order
    | gt => rw [is] at order; exact Sum.Lex.inl_lt_inl_iff.mpr order

/-- The identifiers of a version that was read. -/
def Valid (ids : List String) : Prop := ∀ id ∈ ids, identifierInvalid id.toList = false

theorem comparePre_compares {xs ys : List String} (valid : Valid xs) (valid' : Valid ys) :
    (comparePre xs ys).Compares (xs.map identifier) (ys.map identifier) := by
  induction xs generalizing ys with
  | nil =>
    cases ys with
    | nil => exact rfl
    | cons y ys => exact List.nil_lt_cons _ _
  | cons x xs ih =>
    cases ys with
    | nil => exact List.nil_lt_cons _ _
    | cons y ys =>
      obtain ⟨first,others⟩ := List.forall_mem_cons.mp valid
      obtain ⟨first',others'⟩ := List.forall_mem_cons.mp valid'
      have order := compareIds_compares first first'
      have rest := ih others others'
      rw [comparePre,List.map_cons,List.map_cons]
      cases is : compareIds x y with
      | lt => rw [is] at order; exact List.cons_lt_cons_iff.mpr (.inl order)
      | gt => rw [is] at order; exact List.cons_lt_cons_iff.mpr (.inl order)
      | eq =>
        rw [is] at order
        have same : identifier x = identifier y := order
        rw [Ordering.eq_then,same]
        cases later : comparePre xs ys with
        | lt => rw [later] at rest; exact List.cons_lt_cons_iff.mpr (.inr ⟨rfl,rest⟩)
        | eq => rw [later] at rest; exact congrArg (identifier y :: ·) rest
        | gt => rw [later] at rest; exact List.cons_lt_cons_iff.mpr (.inr ⟨rfl,rest⟩)

theorem cmp_then (a b : Version) : a.cmp b = (compare a.major b.major).then ((compare a.minor b.minor).then
    ((compare a.patch b.patch).then (match a.pre.isEmpty,b.pre.isEmpty with
      | true,false => .gt
      | false,true => .lt
      | _,_ => comparePre a.pre b.pre))) := by
  unfold Version.cmp
  cases compare a.major b.major <;> cases compare a.minor b.minor <;> cases compare a.patch b.patch <;> rfl

/-- The comparison is that of precedence. -/
theorem cmp_compares {a b : Version} (valid : Valid a.pre) (valid' : Valid b.pre) :
    (a.cmp b).Compares (precedence a) (precedence b) := by
  rw [cmp_then]
  refine then_compares (then_compares (then_compares ?_))
  have order := comparePre_compares valid valid'
  cases left : a.pre.isEmpty <;> cases right : b.pre.isEmpty <;>
    simp only [Bool.false_eq_true,if_true,if_false]
  · cases is : comparePre a.pre b.pre with
    | lt => rw [is] at order; exact WithTop.coe_lt_coe.mpr order
    | eq => rw [is] at order; exact congrArg WithTop.some order
    | gt => rw [is] at order; exact WithTop.coe_lt_coe.mpr order
  · exact WithTop.coe_lt_top _
  · exact WithTop.coe_lt_top _
  · rw [List.isEmpty_iff.mp left,List.isEmpty_iff.mp right]
    rfl

theorem identifier_inj {x y : String} (valid : identifierInvalid x.toList = false) (valid' : identifierInvalid y.toList = false)
    (same : identifier x = identifier y) : x = y := by
  have order := compareIds_compares valid valid'
  have equal : compareIds x y = .eq := order.eq_eq.mpr same
  unfold compareIds at equal
  cases left : isNumeric x.toList <;> cases right : isNumeric y.toList <;> rw [left,right] at equal
  · exact compare_eq_iff_eq.mp equal
  · cases equal
  · cases equal
  · exact compare_eq_iff_eq.mp (Ordering.then_eq_eq.mp equal).2

theorem identifiers_inj {xs ys : List String} (valid : Valid xs) (valid' : Valid ys)
    (same : xs.map identifier = ys.map identifier) : xs = ys := by
  induction xs generalizing ys with
  | nil => exact (List.map_eq_nil_iff.mp same.symm).symm
  | cons x xs ih =>
    obtain ⟨y,rest,rfl,first,others⟩ := List.map_eq_cons_iff.mp same.symm
    obtain ⟨one,more⟩ := List.forall_mem_cons.mp valid
    obtain ⟨one',more'⟩ := List.forall_mem_cons.mp valid'
    rw [identifier_inj one one' first.symm,ih more more' others.symm]

theorem precedence_inj {a b : Version} (valid : Valid a.pre) (valid' : Valid b.pre)
    (same : precedence a = precedence b) : a = b := by
  obtain ⟨major,minor,patch,pre⟩ := a
  obtain ⟨major',minor',patch',pre'⟩ := b
  simp only [precedence,EmbeddingLike.apply_eq_iff_eq,Prod.mk.injEq] at same
  obtain ⟨rfl,rfl,rfl,same⟩ := same
  have ids : pre = pre' := by
    split_ifs at same with left right right
    · rw [List.isEmpty_iff.mp left,List.isEmpty_iff.mp right]
    · cases same
    · cases same
    · exact identifiers_inj valid valid' (WithTop.coe_injective same)
  rw [ids]

end Precedence

section Display

theorem numeric_plain {text : List Char} {n : Nat} (read : numeric text = some n) :
    Plain text ∧ value text = n ∧ n ≤ maxSafeInteger := by
  unfold numeric at read
  split at read
  next => cases read
  next good =>
    dsimp only at read
    split_ifs at read with small
    cases read
    rw [Bool.not_eq_true,Bool.or_eq_false_iff,Bool.or_eq_false_iff] at good
    obtain ⟨⟨some_,digits⟩,zero⟩ := good
    rw [Bool.not_eq_false'] at digits
    have nonempty : text ≠ [] := List.isEmpty_eq_false_iff.mp some_
    refine ⟨⟨nonempty,List.all_eq_true.mp digits,fun first => ?_⟩,?_,small⟩
    · rw [first,beq_self_eq_true,Bool.and_true,decide_eq_false_iff_not,not_lt] at zero
      have pos := List.length_pos_of_ne_nil nonempty
      omega
    · rw [value,Nat.ofDigitChars_eq_foldl]
      refine congrArg (fun f => List.foldl f 0 text) ?_
      funext n c
      rw [Nat.mul_comm]
      rfl

theorem numeric_text {text : List Char} {n : Nat} (read : numeric text = some n) : text = (toString n).toList := by
  obtain ⟨plain,is,_⟩ := numeric_plain read
  rw [Nat.toString_eq_ofList_toDigits,String.toList_ofList,← is,digits_value plain]

theorem mapM_three {f : List Char → Option Nat} {parts : List (List Char)} {nums : List Nat}
    (read : parts.mapM f = some nums) (three : nums.length = 3) :
    ∃ x y z i j k, parts = [x,y,z] ∧ nums = [i,j,k] ∧ f x = some i ∧ f y = some j ∧ f z = some k := by
  obtain ⟨i,j,k,rfl⟩ := List.length_eq_three.mp three
  match parts,read with
  | [],read => cases read
  | [x],read =>
    rw [List.mapM_cons] at read
    cases first : f x <;> rw [first] at read <;> cases read
  | [x,y],read =>
    rw [List.mapM_cons,List.mapM_cons] at read
    cases first : f x <;> cases second : f y <;> rw [first,second] at read <;> cases read
  | x :: y :: z :: rest,read =>
    rw [List.mapM_cons,List.mapM_cons,List.mapM_cons] at read
    cases first : f x <;> cases second : f y <;> cases third : f z <;> cases more : rest.mapM f <;>
      rw [first,second,third,more] at read <;> cases read
    cases rest with
    | nil => exact ⟨x,y,z,_,_,_,rfl,rfl,first,second,third⟩
    | cons w rest =>
      rw [List.mapM_cons] at more
      cases fourth : f w <;> cases others : rest.mapM f <;> rw [fourth,others] at more <;> cases more

/-- What a version of three numbers was read from. -/
theorem parse_reads {text : String} {v : Version} (read : Version.parse text = some v) :
    ∃ major minor patch : List Char, ∃ ids : List (List Char), numeric major = some v.major ∧ numeric minor = some v.minor ∧
      numeric patch = some v.patch ∧ v.pre = ids.map String.ofList ∧ (∀ id ∈ ids, identifierInvalid id = false) ∧
      text.toList = major ++ ('.' :: (minor ++ ('.' :: (patch ++ if ids = [] then [] else '-' :: ['.'].intercalate ids)))) := by
  have three : parsePartial text.toList = some (v,3) := by
    unfold Version.parse at read
    split at read
    next version found => rw [found,Option.some.inj read]
    next => cases read
  unfold parsePartial at three
  dsimp only at three
  split at three
  next => cases three
  next nums numbers =>
    split_ifs at three with _ invalid
    obtain ⟨is,three⟩ := Prod.mk.inj (Option.some.inj three)
    obtain ⟨major,minor,patch,i,j,k,parts,rfl,first,second,third⟩ := mapM_three numbers three
    have base : ['.'].intercalate ((((splitOnce '-' text.toList).map Prod.fst).getD text.toList).splitOn '.') = _ :=
      List.intercalate_splitOn '.'
    rw [parts] at base
    subst is
    have valid := fun id member => Bool.eq_false_iff.mpr fun wrong => invalid (List.any_eq_true.mpr ⟨id,member,wrong⟩)
    refine ⟨major,minor,patch,_,first,second,third,rfl,valid,?_⟩
    cases cut : splitOnce '-' text.toList with
    | none =>
      rw [cut] at base
      exact base.symm
    | some halves =>
      obtain ⟨before,after⟩ := halves
      rw [cut] at base
      have ids : ['.'].intercalate (after.splitOn '.') = after := List.intercalate_splitOn '.'
      have base : before = major ++ '.' :: (minor ++ '.' :: (patch ++ [])) := base.symm
      simp only [Option.map_some,Option.getD_some]
      rw [if_neg (List.splitOn_ne_nil '.' after),ids,splitOnce_eq cut,base]
      simp only [List.append_nil,List.append_assoc,List.cons_append]

theorem parse_valid {text : String} {v : Version} (read : Version.parse text = some v) : Valid v.pre := by
  obtain ⟨_,_,_,ids,_,_,_,pre,valid,_⟩ := parse_reads read
  rw [pre]
  intro id member
  obtain ⟨chars,listed,rfl⟩ := List.mem_map.mp member
  rw [String.toList_ofList]
  exact valid chars listed

theorem parse_display {text : String} {v : Version} (read : Version.parse text = some v) : v.display = text := by
  obtain ⟨major,minor,patch,ids,first,second,third,pre,_,whole⟩ := parse_reads read
  apply String.toList_inj.mp
  rw [whole,numeric_text first,numeric_text second,numeric_text third]
  unfold Version.display
  simp only [String.toList_append,List.append_assoc,pre]
  cases ids with
  | nil => rfl
  | cons first rest =>
    have same : (first :: rest).map (String.toList ∘ String.ofList) = first :: rest :=
      (List.map_congr_left fun _ _ => String.toList_ofList).trans (List.map_id _)
    have dash : ("-" : String).toList = ['-'] := rfl
    have dot : ("." : String).toList = ['.'] := rfl
    rw [if_neg (List.cons_ne_nil first rest),List.map_cons,if_neg (by exact Bool.false_ne_true),String.toList_append,
      ← List.map_cons,List.map_map,same,dash,dot,String.toList_ofList]
    rfl

theorem cmp_swap {a b : Version} (valid : Valid a.pre) (valid' : Valid b.pre) : b.cmp a = (a.cmp b).swap := by
  have order := cmp_compares valid valid'
  have back := cmp_compares valid' valid
  cases is : a.cmp b <;> rw [is] at order
  · exact back.eq_gt.mpr order
  · exact back.eq_eq.mpr (Eq.symm order)
  · exact back.eq_lt.mpr order

/-- The comparison of versions is a strict order that agrees with equality and with precedence; a version is
written as it was read. -/
theorem versions_ordered {s t u : String} {a b c : Version} (read : Version.parse s = some a) (read' : Version.parse t = some b)
    (read'' : Version.parse u = some c) :
    (a.cmp b).Compares (precedence a) (precedence b) ∧
    (a.cmp b = .eq ↔ a = b) ∧
    b.cmp a = (a.cmp b).swap ∧
    (a.cmp b = .lt → b.cmp c = .lt → a.cmp c = .lt) ∧
    (a.cmp b ≠ .gt → b.cmp c ≠ .gt → a.cmp c ≠ .gt) ∧
    a.display = s ∧
    Version.parse a.display = some a := by
  have valid := parse_valid read
  have valid' := parse_valid read'
  have order := cmp_compares valid valid'
  have order' := cmp_compares valid' (parse_valid read'')
  have order'' := cmp_compares valid (parse_valid read'')
  refine ⟨order,⟨fun same => precedence_inj valid valid' (order.eq_eq.mp same),fun same => ?_⟩,cmp_swap valid valid',
    fun less less' => ?_,fun least least' => ?_,parse_display read,?_⟩
  · exact order.eq_eq.mpr (congrArg precedence same)
  · exact order''.eq_lt.mpr (lt_trans (order.eq_lt.mp less) (order'.eq_lt.mp less'))
  · exact order''.ne_gt.mpr (le_trans (order.ne_gt.mp least) (order'.ne_gt.mp least'))
  · rw [parse_display read]
    exact read

theorem versions_ordered_rc : (Version.mk 1 0 0 ["rc","2"]).display = "1.0.0-rc.2" ∧
    (Version.mk 1 0 0 ["rc","2"]).cmp ⟨1,0,0,[]⟩ = .lt := by
  have ordered := versions_ordered (s := "1.0.0-rc.2") (t := "1.0.0-rc.11") (u := "1.0.0")
    (a := ⟨1,0,0,["rc","2"]⟩) (b := ⟨1,0,0,["rc","11"]⟩) (c := ⟨1,0,0,[]⟩) (by decide +kernel) (by decide +kernel) (by decide +kernel)
  obtain ⟨_,_,_,trans,_,written,_⟩ := ordered
  exact ⟨written,trans (by decide) (by decide)⟩

end Display

end Entorhinal.Semver
