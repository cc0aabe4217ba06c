import Entorhinal.JcsTokens
import Entorhinal.JsonGrammarLaw

/-! What the lexical check decides of a document: it lets a document through exactly where each
of its numbers is an integer other than `-0`, whatever its strings are. -/
namespace Entorhinal.Json
open Grammar

/-- Neither a fraction nor an exponent, and not `-0`. -/
def Literal.Plain (literal : Literal) : Prop :=
  literal.fraction = [] ∧ literal.exponent = none ∧ ¬ (literal.negative = true ∧ literal.digits = ['0'])

/-- A character that opens neither a string nor a number. -/
def Mark (c : Char) : Prop := c ≠ '\x22' ∧ c ≠ '-' ∧ c.isDigit = false

instance (c : Char) : Decidable (Mark c) := inferInstanceAs (Decidable (_ ∧ _ ∧ _))

/-- No number of the text has a fraction, an exponent or the sign of a zero. -/
def Integral (text : List Char) : Prop := ∀ fuel, integerNumberTokens fuel text = true

theorem integral_nil : Integral [] := fun fuel => by cases fuel <;> rfl

/-- No number goes on into the text. -/
def Apart (text : List Char) : Prop := ∀ c, text.head? = some c → isNumberChar c = false

theorem apart_nil : Apart [] := fun _ none => by cases none

theorem apart_mark {c : Char} (mark : isNumberChar c = false) (rest : List Char) : Apart (c :: rest) := by
  intro d same
  cases same
  exact mark

theorem digit_number {c : Char} (digit : c.isDigit = true) :
    isNumberChar c = true ∧ c ≠ '\x22' ∧ c ≠ '.' ∧ c ≠ 'e' ∧ c ≠ 'E' := by
  refine ⟨by rw [isNumberChar,digit]; rfl,?_,?_,?_,?_⟩ <;> rintro rfl <;> revert digit <;> decide

theorem integral_step {c : Char} {rest next : List Char}
    (step : ∀ fuel, integerNumberTokens (fuel + 1) (c :: rest) = integerNumberTokens fuel next) :
    Integral (c :: rest) ↔ Integral next := by
  constructor
  · intro clear fuel
    rw [← step fuel]
    exact clear (fuel + 1)
  · intro clear fuel
    cases fuel with
    | zero => rfl
    | succ fuel => rw [step fuel,clear]

theorem integral_marked {c : Char} {rest : List Char} (mark : Mark c) : Integral (c :: rest) ↔ Integral rest := by
  apply integral_step
  intro fuel
  obtain ⟨unquoted,unsigned,other⟩ := mark
  rw [integerNumberTokens,if_neg unquoted,if_neg (by simp [unsigned,other])]

theorem integral_string (rest : List Char) : Integral ('\x22' :: rest) ↔ Integral (skipString rest) := by
  apply integral_step
  intro fuel
  rw [integerNumberTokens,if_pos rfl]

/-- A token that the check refuses. -/
def Refused (token : List Char) : Prop :=
  token = ['-','0'] ∨ token.any (fun d => d == '.' || d == 'e' || d == 'E') = true

theorem head_unquoted {c : Char} (head : c = '-' ∨ c.isDigit = true) : c ≠ '\x22' := by
  rcases head with rfl | digit
  · decide
  · exact (digit_number digit).2.1

theorem integral_token {c : Char} {rest : List Char} (head : c = '-' ∨ c.isDigit = true) :
    Integral (c :: rest) ↔ ¬ Refused (c :: rest.takeWhile isNumberChar) ∧ Integral (rest.dropWhile isNumberChar) := by
  have unquoted := head_unquoted head
  by_cases refused : Refused (c :: rest.takeWhile isNumberChar)
  · have stopped : integerNumberTokens 1 (c :: rest) = false := by
      rw [integerNumberTokens,if_neg unquoted,if_pos head]
      exact if_pos refused
    constructor
    · intro clear
      rw [clear 1] at stopped
      cases stopped
    · exact fun both => absurd refused both.1
  · rw [and_iff_right refused]
    apply integral_step
    intro fuel
    rw [integerNumberTokens,if_neg unquoted,if_pos head]
    exact if_neg refused

/-- As many turns as characters are enough. -/
theorem integral_enough (fuel : Nat) : ∀ text : List Char, text.length ≤ fuel →
    integerNumberTokens fuel text = true → Integral text := by
  induction fuel with
  | zero =>
    intro text short _
    obtain rfl := List.length_eq_zero_iff.mp (Nat.le_zero.mp short)
    exact integral_nil
  | succ fuel ih =>
    intro text short passed
    cases text with
    | nil => exact integral_nil
    | cons c rest =>
      rw [List.length_cons] at short
      rw [integerNumberTokens] at passed
      split at passed
      next quoted =>
        have shorter := skipString_length rest
        subst quoted
        exact (integral_string rest).mpr (ih _ (by omega) passed)
      next unquoted =>
        split at passed
        next head =>
          have shorter := dropWhile_length isNumberChar rest
          apply (integral_token head).mpr
          dsimp only at passed
          split at passed
          next => cases passed
          next kept => exact ⟨kept,ih _ (by omega) passed⟩
        next other =>
          obtain ⟨unsigned,digit⟩ := not_or.mp other
          apply (integral_marked ⟨unquoted,unsigned,Bool.not_eq_true _ ▸ digit⟩).mpr
          exact ih rest (by omega) passed

theorem tokens_integral (text : List Char) : integerNumberTokens text.length text = true ↔ Integral text :=
  ⟨integral_enough _ text le_rfl,fun clear => clear _⟩

/-- The check moves past the part and has asked that its literals are integers. -/
def Passes (part : List Char) (literals : List Literal) : Prop :=
  ∀ rest, Apart rest → (Integral (part ++ rest) ↔ (∀ l ∈ literals, l.Plain) ∧ Integral rest)

/-- No number before the part goes on into it. -/
def Divides (part : List Char) : Prop := ∀ rest, Apart rest → Apart (part ++ rest)

/-- The check moves past the part whatever follows it. -/
def Skips (part : List Char) : Prop := ∀ rest, Integral (part ++ rest) ↔ Integral rest

theorem skips_marks {part : List Char} (marks : ∀ c ∈ part, Mark c) : Skips part := by
  intro rest
  induction part with
  | nil => rfl
  | cons c part ih =>
    rw [List.cons_append,integral_marked (marks c List.mem_cons_self)]
    exact ih fun d member => marks d (List.mem_cons_of_mem c member)

theorem skips_passes {part : List Char} (skips : Skips part) : Passes part [] := by
  intro rest _
  rw [skips rest]
  simp

theorem skips_append {first second : List Char} {literals : List Literal} (skips : Skips first)
    (passes : Passes second literals) : Passes (first ++ second) literals := by
  intro rest apart
  rw [List.append_assoc,skips,passes rest apart]

theorem passes_append {first second : List Char} {literals others : List Literal} (before : Passes first literals)
    (after : Passes second others) (divides : Divides second) : Passes (first ++ second) (literals ++ others) := by
  intro rest apart
  rw [List.append_assoc,before _ (divides rest apart),after rest apart,List.forall_mem_append,and_assoc]

theorem divides_mark {c : Char} (mark : isNumberChar c = false) (part : List Char) : Divides (c :: part) :=
  fun _ _ => apart_mark mark _

theorem blank_mark {c : Char} (blank : isBlank c = true) : Mark c ∧ isNumberChar c = false := by
  simp only [isBlank,Bool.or_eq_true,beq_iff_eq] at blank
  rcases blank with ((rfl | rfl) | rfl) | rfl <;> exact ⟨⟨by decide,by decide,by decide⟩,by decide⟩

theorem skips_blanks {blanks : List Char} (blank : Blanks blanks) : Skips blanks :=
  skips_marks fun c member => (blank_mark (blank c member)).1

theorem divides_blanks {blanks : List Char} (blank : Blanks blanks) : Divides blanks := by
  intro rest apart
  cases blanks with
  | nil => exact apart
  | cons c blanks => exact apart_mark (blank_mark (blank c List.mem_cons_self)).2 _

theorem skips_mark {c : Char} (mark : Mark c) : Skips [c] :=
  skips_marks fun _ member => List.mem_singleton.mp member ▸ mark

/-- A bracketed part has the literals of what is inside. -/
theorem passes_bracket {part : List Char} {literals : List Literal} (inside : Passes part literals) {first last : Char}
    (opens : Mark first) (closes : Mark last) (ends : isNumberChar last = false) :
    Passes (first :: (part ++ [last])) literals := by
  have body := passes_append inside (skips_passes (skips_mark closes)) (divides_mark ends [])
  rw [List.append_nil] at body
  exact skips_append (skips_mark opens) body

/-- Two parts with a comma between them. -/
theorem passes_comma {first second : List Char} {literals others : List Literal} (before : Passes first literals)
    (after : Passes second others) : Passes (first ++ ',' :: second) (literals ++ others) :=
  passes_append before (skips_append (skips_mark (by decide)) after) (divides_mark (by decide) second)

theorem hex_unquoted {d : Char} (hex : (hexValue d).isSome = true) : d ≠ '\x22' ∧ d ≠ '\\' := by
  constructor <;> rintro rfl <;> revert hex <;> decide

theorem skipString_plains {part : List Char} (plain : ∀ c ∈ part, c ≠ '\x22' ∧ c ≠ '\\') (rest : List Char) :
    skipString (part ++ rest) = skipString rest := by
  induction part with
  | nil => rfl
  | cons c part ih =>
    obtain ⟨unquoted,unescaped⟩ := plain c List.mem_cons_self
    rw [List.cons_append,skipString_plain unquoted unescaped]
    exact ih fun d member => plain d (List.mem_cons_of_mem c member)

/-- The loop over a string stops at its closing quote. -/
theorem skipString_body {body : List Char} (inside : Body body) (rest : List Char) :
    skipString (body ++ '\x22' :: rest) = rest := by
  induction inside with
  | done => rfl
  | plain unquoted unescaped _ _ ih => rw [List.cons_append,skipString_plain unquoted unescaped,ih]
  | escape _ _ ih => rw [List.cons_append,List.cons_append,skipString_escaped,ih]
  | unicode _ hex _ ih =>
    rw [List.cons_append,List.cons_append,skipString_escaped,List.append_assoc,
      skipString_plains (fun d member => hex_unquoted (hex d member)),ih]

theorem skips_quoted {body : List Char} (inside : Body body) : Skips (quoted body) := by
  intro rest
  rw [quoted,List.cons_append,List.append_assoc,integral_string,List.singleton_append,skipString_body inside]

theorem digits_point {digits : List Char} (only : allDigits digits) :
    digits.any (fun d => d == '.' || d == 'e' || d == 'E') = false := by
  rw [List.any_eq_false]
  intro d member
  obtain ⟨_,_,point,lower,upper⟩ := digit_number (only d member)
  simp [point,lower,upper]

theorem letter_number {mark : Char} (letter : mark = 'e' ∨ mark = 'E') :
    isNumberChar mark = true ∧ (mark == '.' || mark == 'e' || mark == 'E') = true := by
  rcases letter with rfl | rfl <;> decide

theorem digits_chars {digits : List Char} (only : allDigits digits) : ∀ d ∈ digits, isNumberChar d = true :=
  fun d member => (digit_number (only d member)).1

theorem fraction_chars {fraction : List Char} (only : allDigits fraction) :
    ∀ d ∈ fractionText fraction, isNumberChar d = true := by
  cases fraction with
  | nil => exact fun d none => absurd none List.not_mem_nil
  | cons first fraction => exact List.forall_mem_cons.mpr ⟨by decide,digits_chars only⟩

theorem exponent_chars {mark : Char} (letter : mark = 'e' ∨ mark = 'E') {exponent : Option (Sign × List Char)}
    (only : ∀ e ∈ exponent, allDigits e.2 ∧ e.2 ≠ []) : ∀ d ∈ exponentSpelled mark exponent, isNumberChar d = true := by
  cases exponent with
  | none => exact fun d none => absurd none List.not_mem_nil
  | some e =>
    obtain ⟨sign,digits⟩ := e
    have signs : ∀ d ∈ sign.text, isNumberChar d = true := by cases sign <;> simp [Sign.text,isNumberChar]
    exact List.forall_mem_cons.mpr ⟨(letter_number letter).1,
      List.forall_mem_append.mpr ⟨signs,digits_chars (only _ rfl).1⟩⟩

/-- A literal is one token of the check. -/
theorem spelled_token {literal : Literal} {mark : Char} (valid : literal.Valid) (letter : mark = 'e' ∨ mark = 'E') :
    ∃ c later, literal.spelled mark = c :: later ∧ (c = '-' ∨ c.isDigit = true) ∧
      ∀ d ∈ later, isNumberChar d = true := by
  obtain ⟨negative,digits,fraction,exponent⟩ := literal
  obtain ⟨only,some_digit,_,decimals,power⟩ := valid
  have tail := List.forall_mem_append.mpr ⟨fraction_chars decimals,exponent_chars letter power⟩
  cases negative with
  | true =>
    exact ⟨'-',digits ++ (fractionText fraction ++ exponentSpelled mark exponent),rfl,.inl rfl,
      List.forall_mem_append.mpr ⟨digits_chars only,tail⟩⟩
  | false =>
    cases digits with
    | nil => exact absurd rfl some_digit
    | cons d digits =>
      have first := only d List.mem_cons_self
      exact ⟨d,_,rfl,.inr first,List.forall_mem_append.mpr ⟨(List.forall_mem_cons.mp (digits_chars only)).2,tail⟩⟩

/-- The check refuses the token of a literal exactly where it is no plain integer. -/
theorem spelled_refused {literal : Literal} {mark : Char} (valid : literal.Valid) (letter : mark = 'e' ∨ mark = 'E') :
    ¬ Refused (literal.spelled mark) ↔ literal.Plain := by
  obtain ⟨negative,digits,fraction,exponent⟩ := literal
  obtain ⟨only,_,_,_,_⟩ := valid
  have signs : (if negative then ['-'] else []).any (fun d => d == '.' || d == 'e' || d == 'E') = false := by
    cases negative <;> decide
  simp only [Refused,Literal.spelled,Literal.Plain,List.any_append,signs,digits_point only,Bool.false_or]
  cases fraction with
  | cons d fraction => simp [fractionText]
  | nil =>
    cases exponent with
    | some e => simp [exponentSpelled,(letter_number letter).2]
    | none =>
      cases negative with
      | true => simp [fractionText,exponentSpelled]
      | false =>
        have unsigned : digits ≠ ['-','0'] := by
          rintro rfl
          exact absurd (only '-' List.mem_cons_self) (by decide)
        simp [fractionText,exponentSpelled,unsigned]

theorem passes_literal {literal : Literal} {mark : Char} (valid : literal.Valid) (letter : mark = 'e' ∨ mark = 'E') :
    Passes (literal.spelled mark) [literal] := by
  intro rest apart
  have refused := spelled_refused valid letter
  obtain ⟨c,later,shape,head,chars⟩ := spelled_token valid letter
  obtain ⟨taken,left⟩ := span_stops chars apart
  rw [shape] at refused ⊢
  rw [List.cons_append,integral_token head,taken,left,refused,List.forall_mem_singleton]

theorem word_marks : ∀ word ∈ [['n','u','l','l'],['t','r','u','e'],['f','a','l','s','e']], ∀ c ∈ word, Mark c := by
  simp [Mark]

/-- The check stays in step with every text of the grammar. -/
theorem derives_passes {symbol : Symbol} {text : List Char} {literals : List Literal}
    (derived : Derives symbol text literals) : Passes text literals := by
  induction derived with
  | word known => exact skips_passes (skips_marks (word_marks _ known))
  | string inside => exact skips_passes (skips_quoted inside)
  | number valid letter => exact passes_literal valid letter
  | emptyArray blank => exact passes_bracket (skips_passes (skips_blanks blank)) (by decide) (by decide) (by decide)
  | array _ ih => exact passes_bracket ih (by decide) (by decide) (by decide)
  | emptyObject blank => exact passes_bracket (skips_passes (skips_blanks blank)) (by decide) (by decide) (by decide)
  | object _ ih => exact passes_bracket ih (by decide) (by decide) (by decide)
  | element first last _ ih =>
    have body := passes_append ih (skips_passes (skips_blanks last)) (divides_blanks last)
    rw [List.append_nil] at body
    exact skips_append (skips_blanks first) body
  | oneElement _ ih => exact ih
  | moreElements _ _ ih others => exact passes_comma ih others
  | member first inside last _ ih =>
    apply skips_append (skips_blanks first)
    apply skips_append (skips_quoted inside)
    apply skips_append (skips_blanks last)
    exact skips_append (skips_mark (c := ':') (by decide)) ih
  | oneMember _ ih => exact ih
  | moreMembers _ _ ih others => exact passes_comma ih others

theorem wellFormed_integral {text : String} {literals : List Literal} (document : WellFormed text literals) :
    Integral text.toList ↔ ∀ literal ∈ literals, literal.Plain := by
  have passes := derives_passes document [] apart_nil
  rw [List.append_nil] at passes
  rw [passes]
  exact and_iff_left integral_nil

theorem bytes_integral (text : String) : integerNumberTokensBytes text = true ↔ Integral text.toList := by
  rw [integerNumberTokens_bytes,tokens_integral]

/-- The check lets a document through exactly where its numbers are plain integers. Two documents
with the same numbers have one answer, whatever characters and escapes are in their strings. -/
theorem integerNumberTokens_exact {text : String} {literals : List Literal} (document : WellFormed text literals) :
    (integerNumberTokensBytes text = true ↔ ∀ literal ∈ literals, literal.Plain) ∧
      ∀ other, WellFormed other literals → integerNumberTokensBytes other = integerNumberTokensBytes text := by
  have answer : ∀ {text}, WellFormed text literals →
      (integerNumberTokensBytes text = true ↔ ∀ literal ∈ literals, literal.Plain) := by
    intro text document
    rw [bytes_integral,wellFormed_integral document]
  refine ⟨answer document,?_⟩
  intro other another
  rw [Bool.eq_iff_iff,answer another,answer document]

def minusOne : Literal := ⟨true,['1'],[],none⟩

/-- An object with the one field `-1`, under a key of this body. -/
def keyed (body : List Char) : String :=
  String.ofList ('\x7b' :: (quoted body ++ ':' :: '-' :: '1' :: ['\x7d']))

theorem keyed_wellFormed {body : List Char} (inside : Body body) : WellFormed (keyed body) [minusOne] := by
  have valid : minusOne.Valid :=
    ⟨by simp [minusOne,allDigits],by decide,by decide,fun _ member => absurd member List.not_mem_nil,
      fun _ member => by cases member⟩
  have value : Derives .value ['-','1'] [minusOne] := @Derives.number minusOne 'e' valid (.inl rfl)
  have member := Derives.member blanks_nil inside blanks_nil (.element blanks_nil blanks_nil value)
  have object := Derives.element blanks_nil blanks_nil (.object (.oneMember member))
  rw [WellFormed,keyed,String.toList_ofList]
  simpa using object

theorem integerNumberTokens_exact_keyed :
    integerNumberTokensBytes (keyed ['-','0','.','\\','\x22','e','\\','\\']) = true ∧
      integerNumberTokensBytes (keyed []) = integerNumberTokensBytes (keyed ['-','0','.','\\','\x22','e','\\','\\']) := by
  have ends : Body ['e','\\','\\'] := .plain (by decide) (by decide) (by decide) (.escape (by decide) .done)
  have inside : Body ['-','0','.','\\','\x22','e','\\','\\'] :=
    .plain (by decide) (by decide) (by decide) (.plain (by decide) (by decide) (by decide)
      (.plain (by decide) (by decide) (by decide) (.escape (by decide) ends)))
  obtain ⟨answer,strings⟩ := integerNumberTokens_exact (keyed_wellFormed inside)
  refine ⟨answer.mpr ?_,strings _ (keyed_wellFormed .done)⟩
  intro literal member
  obtain rfl := List.mem_singleton.mp member
  exact ⟨rfl,rfl,by decide⟩

example : integerNumberTokensBytes "[1,-0]" = false := by decide

/-- The numbers of a signed document are plain integers, each the one its literal stands for. -/
theorem parseSigned_plain {F : Type} [Doubles F] {text : String} {tree : Json F} {keys : List String}
    (parsed : parseSigned text = some (tree,keys)) :
    ∃ source literals, parse text.toList = some source ∧ tree = source.ordered ∧ WellFormed text literals ∧
      StandFor literals source.numbers ∧ ∀ literal ∈ literals, literal.Plain := by
  rw [parseSigned] at parsed
  split at parsed
  next passed =>
    obtain ⟨source,distinct,same⟩ := Option.map_eq_some_iff.mp parsed
    obtain ⟨rfl,_⟩ := Prod.mk.inj same
    obtain ⟨read,_⟩ := Option.filter_eq_some_iff.mp distinct
    obtain ⟨literals,document,stand⟩ := parse_wellFormed read
    have integral := (tokens_integral _).mp passed
    exact ⟨source,literals,read,rfl,document,stand,(wellFormed_integral document).mp integral⟩
  next => cases parsed

end Entorhinal.Json
