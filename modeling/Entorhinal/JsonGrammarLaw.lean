import Entorhinal.JsonGrammar
import Entorhinal.JsonLaw

/-! The reader reads no text outside the grammar, and the numbers of the tree it gives are those
of the literals of the text. What is written for a tree is in the grammar, with the literals of
its numbers. -/
namespace Entorhinal.Json
open Grammar

section
variable {F : Type}

mutual
/-- The numbers of a tree from left to right. -/
def numbers : Json F → List (Number F)
  | .number n => [n]
  | .array items => numbersItems items
  | .object fields => numbersFields fields
  | _ => []

def numbersItems : List (Json F) → List (Number F)
  | [] => []
  | item :: rest => item.numbers ++ numbersItems rest

def numbersFields : List (String × Json F) → List (Number F)
  | [] => []
  | (_,value) :: rest => value.numbers ++ numbersFields rest
end

end

theorem skip_parts {text rest : List Char} (skipped : skip text = rest) :
    ∃ blanks, text = blanks ++ rest ∧ Blanks blanks := by
  refine ⟨text.takeWhile isBlank,?_,fun c member => List.mem_takeWhile_imp member⟩
  rw [← skipped]
  exact List.takeWhile_append_dropWhile.symm

theorem hex4_parts {text rest : List Char} {n : Nat} (read : hex4 text = some (n,rest)) :
    ∃ digits, text = digits ++ rest ∧ digits.length = 4 ∧ ∀ d ∈ digits, (hexValue d).isSome = true := by
  unfold hex4 at read
  split at read
  next a b c d tail =>
    split at read
    next first second third fourth =>
      obtain ⟨_,rfl⟩ := Prod.mk.inj (Option.some.inj read)
      refine ⟨[a,b,c,d],rfl,rfl,?_⟩
      simp [first,second,third,fourth]
    next => cases read
  next => cases read

theorem readUnicode_parts {text rest : List Char} {c : Char} (read : readUnicode text = some (c,rest)) :
    ∃ part, text = part ++ rest ∧ ∀ {later}, Body later → Body ('\\' :: 'u' :: (part ++ later)) := by
  unfold readUnicode at read
  split at read
  next => cases read
  next n tail high =>
    obtain ⟨digits,rfl,four,hex⟩ := hex4_parts high
    split at read
    next => cases read
    next =>
      split at read
      next =>
        -- a surrogate and its other half
        split at read
        next =>
          split at read
          next => cases read
          next low_read =>
            obtain ⟨others,rfl,four_more,hex_more⟩ := hex4_parts low_read
            split at read
            next =>
              obtain ⟨_,rfl⟩ := Prod.mk.inj (Option.some.inj read)
              refine ⟨digits ++ '\\' :: 'u' :: others,by simp,fun {later} body => ?_⟩
              rw [List.append_assoc]
              exact .unicode four hex (.unicode four_more hex_more body)
            next => cases read
        next => cases read
      next =>
        obtain ⟨_,rfl⟩ := Prod.mk.inj (Option.some.inj read)
        exact ⟨digits,rfl,fun body => .unicode four hex body⟩

theorem readEscape_parts {text rest : List Char} {c : Char} (read : readEscape text = some (c,rest)) :
    ∃ part, text = part ++ rest ∧ ∀ {later}, Body later → Body ('\\' :: (part ++ later)) := by
  cases text with
  | nil => cases read
  | cons first text =>
    by_cases unicode : first = 'u'
    · subst unicode
      obtain ⟨part,rfl,escaped⟩ := readUnicode_parts (read : readUnicode text = some (c,rest))
      exact ⟨'u' :: part,rfl,escaped⟩
    · simp only [readEscape,if_neg unicode] at read
      have known : first ∈ ['\x22','\\','/','b','f','n','r','t'] := by
        by_contra other
        simp only [List.mem_cons,List.not_mem_nil,or_false,not_or] at other
        simp [other] at read
      have left : text = rest := by
        split_ifs at read <;> exact (Prod.mk.inj (Option.some.inj read)).2
      subst left
      exact ⟨[first],rfl,fun body => .escape known body⟩

theorem readString_parts (fuel : Nat) : ∀ {text chars rest : List Char}, readString fuel text = some (chars,rest) →
    ∃ body, text = body ++ '\x22' :: rest ∧ Body body := by
  induction fuel with
  | zero => intro text chars rest read; cases read
  | succ fuel ih =>
    intro text chars rest read
    cases text with
    | nil => cases read
    | cons c text =>
      rw [readString] at read
      split at read
      next quote =>
        obtain ⟨_,rfl⟩ := Prod.mk.inj (Option.some.inj read)
        exact ⟨[],by rw [quote]; rfl,.done⟩
      next unquoted =>
        split at read
        next escape =>
          subst escape
          split at read
          next => cases read
          next escaped =>
            obtain ⟨part,rfl,goes_on⟩ := readEscape_parts escaped
            obtain ⟨⟨more,left⟩,tail,same⟩ := Option.map_eq_some_iff.mp read
            obtain ⟨_,rfl⟩ := Prod.mk.inj same
            obtain ⟨body,rfl,inside⟩ := ih tail
            exact ⟨'\\' :: (part ++ body),by simp,goes_on inside⟩
        next unescaped =>
          split at read
          next => cases read
          next printed =>
            obtain ⟨⟨more,left⟩,tail,same⟩ := Option.map_eq_some_iff.mp read
            obtain ⟨_,rfl⟩ := Prod.mk.inj same
            obtain ⟨body,rfl,inside⟩ := ih tail
            exact ⟨c :: body,rfl,.plain unquoted unescaped (not_lt.mp printed) inside⟩

theorem readKey_parts {text rest : List Char} {key : String} (read : readKey text = some (key,rest)) :
    ∃ before body after, text = before ++ (quoted body ++ (after ++ ':' :: rest)) ∧
      Blanks before ∧ Body body ∧ Blanks after := by
  unfold readKey at read
  split at read
  next tail skipped =>
    obtain ⟨before,rfl,blank⟩ := skip_parts skipped
    split at read
    next => cases read
    next string =>
      obtain ⟨body,rfl,inside⟩ := readString_parts _ string
      split at read
      next colon =>
        obtain ⟨after,rfl,later⟩ := skip_parts colon
        obtain ⟨_,rfl⟩ := Prod.mk.inj (Option.some.inj read)
        exact ⟨before,body,after,by simp [quoted],blank,inside,later⟩
      next => cases read
  next => cases read

/-- The first digits of a text and what follows them. -/
theorem digits_parts (text : List Char) :
    text = text.takeWhile Char.isDigit ++ text.dropWhile Char.isDigit ∧ allDigits (text.takeWhile Char.isDigit) :=
  ⟨List.takeWhile_append_dropWhile.symm,fun _ member => List.mem_takeWhile_imp member⟩

theorem scanFraction_parts {text rest fraction : List Char} (scanned : scanFraction text = some (fraction,rest)) :
    text = fractionText fraction ++ rest ∧ allDigits fraction := by
  unfold scanFraction at scanned
  split at scanned
  next tail =>
    split at scanned
    next => cases scanned
    next filled =>
      obtain ⟨rfl,rfl⟩ := Prod.mk.inj (Option.some.inj scanned)
      obtain ⟨parts,only⟩ := digits_parts tail
      refine ⟨?_,only⟩
      rw [fractionText,if_neg filled,List.cons_append,← parts]
  next =>
    obtain ⟨rfl,rfl⟩ := Prod.mk.inj (Option.some.inj scanned)
    exact ⟨rfl,fun _ none => absurd none List.not_mem_nil⟩

theorem scanSign_parts (text : List Char) : text = (scanSign text).1.text ++ (scanSign text).2 := by
  unfold scanSign
  split <;> rfl

theorem scanExponent_parts {text rest : List Char} {exponent : Option (Sign × List Char)}
    (scanned : scanExponent text = some (exponent,rest)) :
    ∃ mark, (mark = 'e' ∨ mark = 'E') ∧ text = exponentSpelled mark exponent ++ rest ∧
      ∀ e ∈ exponent, allDigits e.2 ∧ e.2 ≠ [] := by
  cases text with
  | nil =>
    obtain ⟨rfl,rfl⟩ := Prod.mk.inj (Option.some.inj scanned)
    exact ⟨'e',.inl rfl,rfl,fun _ none => by cases none⟩
  | cons c text =>
    rw [scanExponent] at scanned
    split at scanned
    next letter =>
      dsimp only at scanned
      split at scanned
      next => cases scanned
      next filled =>
        obtain ⟨rfl,rfl⟩ := Prod.mk.inj (Option.some.inj scanned)
        obtain ⟨parts,only⟩ := digits_parts (scanSign text).2
        refine ⟨c,letter,?_,?_⟩
        · rw [exponentSpelled,List.cons_append,List.append_assoc,← parts,← scanSign_parts]
        · intro e same
          obtain rfl := Option.some.inj same
          exact ⟨only,mt List.isEmpty_iff.mpr filled⟩
    next =>
      obtain ⟨rfl,rfl⟩ := Prod.mk.inj (Option.some.inj scanned)
      exact ⟨'e',.inl rfl,rfl,fun _ none => by cases none⟩

theorem sign_parts (text : List Char) :
    text = (if text.head? == some '-' then ['-'] else []) ++ (if text.head? == some '-' then text.tail else text) := by
  split
  next signed =>
    obtain ⟨rest,rfl⟩ := List.head?_eq_some_iff.mp (beq_iff_eq.mp signed)
    rfl
  next => rfl

/-- A literal that is scanned is well formed, and stands in the text. -/
theorem scan_parts {text rest : List Char} {literal : Literal} (scanned : scan text = some (literal,rest)) :
    literal.Valid ∧ ∃ mark, (mark = 'e' ∨ mark = 'E') ∧ text = literal.spelled mark ++ rest := by
  unfold scan at scanned
  dsimp only at scanned
  have signs := sign_parts text
  generalize (text.head? == some '-') = negative at scanned signs
  generalize (if negative = true then text.tail else text) = body at scanned signs
  obtain ⟨parts,only⟩ := digits_parts body
  split at scanned
  next => cases scanned
  next shape =>
    obtain ⟨filled,plain⟩ := not_or.mp (mt Bool.or_eq_true_iff.mpr shape)
    split at scanned
    next => cases scanned
    next fraction tail fraction_scanned =>
      split at scanned
      next => cases scanned
      next exponent left exponent_scanned =>
        obtain ⟨rfl,rfl⟩ := Prod.mk.inj (Option.some.inj scanned)
        obtain ⟨fraction_text,decimals⟩ := scanFraction_parts fraction_scanned
        obtain ⟨mark,letter,exponent_text,power⟩ := scanExponent_parts exponent_scanned
        refine ⟨⟨only,mt List.isEmpty_iff.mpr filled,Bool.eq_false_iff.mpr plain,decimals,power⟩,mark,letter,?_⟩
        rw [fraction_text,exponent_text] at parts
        rw [signs,Literal.spelled]
        simp only [List.append_assoc]
        rw [← parts]

/-- A text that makes one of the symbol of an element after it. -/
def Leads (symbol : Symbol) (lead : List Char) : Prop :=
  ∀ ⦃text : List Char⦄ ⦃literals : List Literal⦄, Derives .element text literals →
    Derives symbol (lead ++ text) literals

theorem leads_element : Leads .element [] := fun _ _ element => element

theorem leads_member {before body after : List Char} (first : Blanks before) (inside : Body body) (last : Blanks after) :
    Leads .member (before ++ (quoted body ++ (after ++ [':']))) := by
  intro text literals element
  have member := Derives.member first inside last element
  simpa using member

/-- What may follow a value, to the end of its container. -/
def Follows (one many : Symbol) (part : List Char) (others : List Literal) : Prop :=
  ∀ ⦃lead before text : List Char⦄ ⦃literals : List Literal⦄, Leads one lead → Blanks before →
    Derives .value text literals → Derives many (lead ++ (before ++ (text ++ part))) (literals ++ others)

section
variable {one many : Symbol}

theorem follows_end (single : ∀ {text literals}, Derives one text literals → Derives many text literals)
    {blanks : List Char} (blank : Blanks blanks) : Follows one many blanks [] := by
  intro lead before text literals leads first value
  rw [List.append_nil]
  exact single (leads (.element first blank value))

theorem follows_more
    (more : ∀ {text rest literals others}, Derives one text literals → Derives many rest others →
      Derives many (text ++ ',' :: rest) (literals ++ others))
    {blanks lead before text part : List Char} {literals others : List Literal} (blank : Blanks blanks)
    (leads : Leads one lead) (first : Blanks before) (value : Derives .value text literals)
    (follows : Follows one many part others) :
    Follows one many (blanks ++ ',' :: (lead ++ (before ++ (text ++ part)))) (literals ++ others) := by
  intro lead' before' text' literals' leads' first' value'
  have head := leads' (.element first' blank value')
  have whole := more head (follows leads first value)
  simpa using whole

end

section
variable {F : Type} [Doubles F]

/-- The literals stand for the numbers. -/
def StandFor (literals : List Literal) (numbers : List (Number F)) : Prop :=
  literals.map Number.ofLiteral = numbers.map some

theorem standFor_append {literals others : List Literal} {numbers more : List (Number F)}
    (first : StandFor literals numbers) (later : StandFor others more) :
    StandFor (literals ++ others) (numbers ++ more) := by
  rw [StandFor,List.map_append,List.map_append,first,later]

/-- The text starts with the value, and the rest is left. -/
def Reads (text rest : List Char) (value : Json F) : Prop :=
  ∃ part literals, text = part ++ rest ∧ Derives .value part literals ∧ StandFor literals value.numbers

omit [Doubles F] in
theorem words_known {text : List Char} {value : Json F} (known : (text,value) ∈ words) :
    text ∈ [['n','u','l','l'],['t','r','u','e'],['f','a','l','s','e']] ∧ value.numbers = [] := by
  simp only [words,List.mem_cons,List.not_mem_nil,or_false,Prod.mk.injEq] at known
  rcases known with ⟨rfl,rfl⟩ | ⟨rfl,rfl⟩ | ⟨rfl,rfl⟩
  · exact ⟨.head _,rfl⟩
  · exact ⟨.tail _ (.head _),rfl⟩
  · exact ⟨.tail _ (.tail _ (.head _)),rfl⟩

/-- What is read of a text is a value of the grammar after blanks, or what follows one to the
end of its container. -/
theorem read_derives (fuel : Nat) :
    (∀ {depth : Nat} {text rest : List Char} {value : Json F}, readValue fuel depth text = some (value,rest) →
      ∃ before part, text = before ++ part ∧ Blanks before ∧ Reads part rest value) ∧
    (∀ {depth : Nat} {text rest : List Char} {items : List (Json F)},
      readItems fuel depth text = some (items,rest) →
      ∃ part literals, text = part ++ ']' :: rest ∧ Follows .element .elements part literals ∧
        StandFor literals (numbersItems items)) ∧
    ∀ {depth : Nat} {text rest : List Char} {fields : List (String × Json F)},
      readFields fuel depth text = some (fields,rest) →
      ∃ part literals, text = part ++ '\x7d' :: rest ∧ Follows .member .members part literals ∧
        StandFor literals (numbersFields fields) := by
  induction fuel with
  | zero => refine ⟨?_,?_,?_⟩ <;> intro _ _ _ _ done <;> cases done
  | succ fuel ih =>
    obtain ⟨values,items,fields⟩ := ih
    refine ⟨?_,?_,?_⟩
    · intro depth text rest value done
      obtain ⟨before,parts,blank⟩ := skip_parts (rfl : skip text = skip text)
      refine ⟨before,skip text,parts,blank,?_⟩
      have read := readValue_cases done
      generalize skip text = shown at read
      cases read with
      | word known =>
        obtain ⟨word,flat⟩ := words_known known
        exact ⟨_,[],rfl,.word word,by rw [flat]; rfl⟩
      | string read =>
        obtain ⟨body,rfl,inside⟩ := readString_parts _ read
        exact ⟨quoted body,[],by simp [quoted],.string inside,rfl⟩
      | number scanned known =>
        obtain ⟨valid,mark,letter,rfl⟩ := scan_parts scanned
        exact ⟨_,_,rfl,.number valid letter,by simp [StandFor,numbers,known]⟩
      | emptyArray deep closes =>
        obtain ⟨blanks,rfl,between⟩ := skip_parts closes
        exact ⟨_,[],by simp,.emptyArray between,rfl⟩
      | array deep first others =>
        obtain ⟨before,_,rfl,inner,text,literals,rfl,value,known⟩ := values first
        obtain ⟨part,later,rfl,follows,stand⟩ := items others
        exact ⟨_,_,by simp,.array (follows leads_element inner value),standFor_append known stand⟩
      | emptyObject deep closes =>
        obtain ⟨blanks,rfl,between⟩ := skip_parts closes
        exact ⟨_,[],by simp,.emptyObject between,rfl⟩
      | object deep named first others =>
        obtain ⟨outer,body,after,rfl,outside,inside,colon⟩ := readKey_parts named
        obtain ⟨before,_,rfl,inner,text,literals,rfl,value,known⟩ := values first
        obtain ⟨part,later,rfl,follows,stand⟩ := fields others
        exact ⟨_,_,by simp,.object (follows (leads_member outside inside colon) inner value),
          standFor_append known stand⟩
    · intro depth text rest read done
      obtain ⟨closes,rfl⟩ | ⟨_,_,_,_,comma,first,others,rfl⟩ := readItems_cases done
      · obtain ⟨blanks,rfl,blank⟩ := skip_parts closes
        exact ⟨blanks,[],rfl,follows_end .oneElement blank,rfl⟩
      · obtain ⟨blanks,rfl,blank⟩ := skip_parts comma
        obtain ⟨before,_,rfl,inner,text,literals,rfl,value,known⟩ := values first
        obtain ⟨part,later,rfl,follows,stand⟩ := items others
        exact ⟨_,_,by simp,follows_more .moreElements blank leads_element inner value follows,
          standFor_append known stand⟩
    · intro depth text rest read done
      obtain ⟨closes,rfl⟩ | ⟨_,_,_,_,_,_,comma,named,first,others,rfl⟩ := readFields_cases done
      · obtain ⟨blanks,rfl,blank⟩ := skip_parts closes
        exact ⟨blanks,[],rfl,follows_end .oneMember blank,rfl⟩
      · obtain ⟨blanks,rfl,blank⟩ := skip_parts comma
        obtain ⟨outer,body,after,rfl,outside,inside,colon⟩ := readKey_parts named
        obtain ⟨before,_,rfl,inner,text,literals,rfl,value,known⟩ := values first
        obtain ⟨part,later,rfl,follows,stand⟩ := fields others
        exact ⟨_,_,by simp,
          follows_more .moreMembers blank (leads_member outside inside colon) inner value follows,
          standFor_append known stand⟩

/-- A text the reader reads is a document, and the numbers of its tree are its literals. -/
theorem parse_wellFormed {text : String} {value : Json F} (parsed : parse text.toList = some value) :
    ∃ literals, WellFormed text literals ∧ StandFor literals value.numbers := by
  unfold parse at parsed
  split at parsed
  next => cases parsed
  next read rest done =>
    split at parsed
    next ended =>
      obtain rfl := Option.some.inj parsed
      obtain ⟨before,_,whole,first,part,literals,rfl,value,stand⟩ := (read_derives _).1 done
      obtain ⟨after,rfl,last⟩ := skip_parts (List.isEmpty_iff.mp ended)
      refine ⟨literals,?_,stand⟩
      rw [List.append_nil] at whole
      rw [WellFormed,whole]
      exact .element first last value
    next => cases parsed

omit [Doubles F] in
theorem blanks_nil : Blanks [] := fun _ none => absurd none List.not_mem_nil

omit [Doubles F] in
theorem escape_body (c : Char) {rest : List Char} (inside : Body rest) : Body (escape c ++ rest) := by
  unfold escape
  split
  next => exact .escape (by decide) inside
  next unquoted =>
    split
    next => exact .escape (by decide) inside
    next unescaped =>
      split_ifs
      · exact .escape (by decide) inside
      · exact .escape (by decide) inside
      · exact .escape (by decide) inside
      · exact .escape (by decide) inside
      · exact .escape (by decide) inside
      next small =>
        have high := hexValue_hex (c.toNat / 16) (by omega)
        have low := hexValue_hex (c.toNat % 16) (by omega)
        have hex : ∀ d ∈ ['0','0',hex (c.toNat / 16),hex (c.toNat % 16)], (hexValue d).isSome = true := by
          simp only [List.forall_mem_cons,high,low]
          exact ⟨by decide,by decide,rfl,rfl,fun _ none => absurd none List.not_mem_nil⟩
        exact .unicode rfl hex inside
      next printed => exact .plain unquoted unescaped (not_lt.mp printed) inside

omit [Doubles F] in
theorem escaped_body (text : List Char) : Body (text.flatMap escape) := by
  induction text with
  | nil => exact .done
  | cons c text ih =>
    rw [List.flatMap_cons]
    exact escape_body c ih

mutual
/-- What is written for a value is one of the grammar. -/
theorem emit_derives : ∀ value : Json F, Derives .value value.emit (value.numbers.map Number.literal)
  | .null => .word (.head _)
  | .bool true => .word (.tail _ (.head _))
  | .bool false => .word (.tail _ (.tail _ (.head _)))
  | .number n => by
    have number := Derives.number n.literal_valid (.inl rfl)
    rwa [Literal.spelled_lower] at number
  | .string text => .string (escaped_body text.toList)
  | .array [] => .emptyArray blanks_nil
  | .array (item :: rest) => by
    obtain ⟨part,ends,follows⟩ := emitItems_follows rest
    have array := Derives.array (follows leads_element blanks_nil (emit_derives item))
    rw [emit,ends,numbers,numbersItems,List.map_append]
    simpa using array
  | .object [] => .emptyObject blanks_nil
  | .object ((key,value) :: rest) => by
    obtain ⟨part,ends,follows⟩ := emitFields_follows rest
    have lead := leads_member blanks_nil (escaped_body key.toList) blanks_nil
    have object := Derives.object (follows lead blanks_nil (emit_derives value))
    rw [emit,ends,numbers,numbersFields,List.map_append]
    simpa [quote,quoteChars,quoted] using object

theorem emitItems_follows : ∀ items : List (Json F), ∃ part, emitItems items = part ++ [']'] ∧
    Follows .element .elements part ((numbersItems items).map Number.literal)
  | [] => ⟨[],rfl,follows_end .oneElement blanks_nil⟩
  | item :: rest => by
    obtain ⟨part,ends,follows⟩ := emitItems_follows rest
    have more := follows_more .moreElements blanks_nil leads_element blanks_nil (emit_derives item) follows
    rw [emitItems,ends,numbersItems,List.map_append]
    exact ⟨_,by simp,more⟩

theorem emitFields_follows : ∀ fields : List (String × Json F), ∃ part, emitFields fields = part ++ ['\x7d'] ∧
    Follows .member .members part ((numbersFields fields).map Number.literal)
  | [] => ⟨[],rfl,follows_end .oneMember blanks_nil⟩
  | (key,value) :: rest => by
    obtain ⟨part,ends,follows⟩ := emitFields_follows rest
    have lead := leads_member blanks_nil (escaped_body key.toList) blanks_nil
    have more := follows_more .moreMembers blanks_nil lead blanks_nil (emit_derives value) follows
    rw [emitFields,ends,numbersFields,List.map_append]
    exact ⟨_,by simp [quote,quoteChars,quoted],more⟩
end

theorem emit_wellFormed (value : Json F) :
    WellFormed (String.ofList value.emit) (value.numbers.map Number.literal) := by
  have element := Derives.element blanks_nil blanks_nil (emit_derives value)
  rw [WellFormed,String.toList_ofList]
  simpa using element

end

end Entorhinal.Json
