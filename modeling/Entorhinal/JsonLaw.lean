import Entorhinal.Json

/-! The reader gives back the tree a text was written for, and the fields of an object
in key order. -/
namespace Entorhinal.Json

theorem skip_cons {c : Char} {text : List Char} (dark : isBlank c = false) : skip (c :: text) = c :: text :=
  List.dropWhile_cons_of_neg (by rw [dark]; decide)

theorem hexValue_hex : ∀ d < 16, hexValue (hex d) = some d := by decide

theorem readEscape_unicode (rest : List Char) : readEscape ('u' :: rest) = readUnicode rest := rfl

/-- An escaped character is read as itself. -/
theorem readString_escape (fuel : Nat) (c : Char) (rest : List Char) :
    readString (fuel + 1) (escape c ++ rest) = (readString fuel rest).map fun read => (c :: read.1,read.2) := by
  have control : ∀ n, c.toNat = n → Char.ofNat n = c := by
    rintro n rfl
    exact Char.ofNat_toNat c
  unfold escape
  split
  next same => subst same; rfl
  next notQuote =>
    split
    next same => subst same; rfl
    next notBackslash =>
      split
      next same => rw [← control 8 same]; rfl
      next =>
        split
        next same => rw [← control 9 same]; rfl
        next =>
          split
          next same => rw [← control 10 same]; rfl
          next =>
            split
            next same => rw [← control 12 same]; rfl
            next =>
              split
              next same => rw [← control 13 same]; rfl
              next =>
                split
                next small =>
                  have first := hexValue_hex (c.toNat / 16) (by omega)
                  have second := hexValue_hex (c.toNat % 16) (by omega)
                  have zero : hexValue '0' = some 0 := rfl
                  have value : ((0 * 16 + 0) * 16 + c.toNat / 16) * 16 + c.toNat % 16 = c.toNat := by omega
                  have read : readUnicode ('0' :: '0' :: hex (c.toNat / 16) :: hex (c.toNat % 16) :: rest) =
                      some (c,rest) := by
                    simp only [readUnicode,hex4,first,second,zero,value]
                    rw [if_neg (by omega),if_neg (by omega),control c.toNat rfl]
                  rw [← readEscape_unicode] at read
                  simp only [List.cons_append,List.nil_append]
                  rw [readString,if_neg (by decide),if_pos rfl,read]
                next large =>
                  show readString (fuel + 1) (c :: rest) = _
                  rw [readString,if_neg notQuote,if_neg notBackslash,if_neg large]

theorem escape_length (c : Char) : 0 < (escape c).length := by
  unfold escape
  split_ifs <;> exact Nat.succ_pos _

theorem escaped_length (text : List Char) : text.length ≤ (text.flatMap escape).length := by
  induction text with
  | nil => exact Nat.le_refl 0
  | cons c text ih =>
    have := escape_length c
    rw [List.flatMap_cons,List.length_append,List.length_cons]
    omega

theorem readString_quoted {fuel : Nat} {text rest : List Char} (room : text.length < fuel) :
    readString fuel (text.flatMap escape ++ '\x22' :: rest) = some (text,rest) := by
  induction text generalizing fuel with
  | nil =>
    obtain ⟨fuel,rfl⟩ := Nat.exists_eq_add_of_lt room
    rfl
  | cons c text ih =>
    obtain ⟨fuel,rfl⟩ : ∃ n, fuel = n + 1 := ⟨fuel - 1,by rw [List.length_cons] at room; omega⟩
    rw [List.length_cons] at room
    rw [List.flatMap_cons,List.append_assoc,readString_escape,ih (by omega)]
    rfl

/-- A quoted text is read back after its first quote, whatever follows it. -/
theorem readString_quote (text : String) (rest : List Char) :
    readString (text.toList.flatMap escape ++ '\x22' :: rest).length
      (text.toList.flatMap escape ++ '\x22' :: rest) = some (text.toList,rest) := by
  have := escaped_length text.toList
  apply readString_quoted
  rw [List.length_append,List.length_cons]
  omega

theorem quote_append (text : String) (rest : List Char) :
    quote text ++ rest = '\x22' :: (text.toList.flatMap escape ++ '\x22' :: rest) := by
  rw [quote,quoteChars,List.cons_append,List.append_assoc]
  rfl

theorem readKey_quote (key : String) (rest : List Char) :
    readKey (quote key ++ ':' :: rest) = some (key,rest) := by
  have colon : skip (':' :: rest) = ':' :: rest := skip_cons rfl
  rw [readKey,quote_append,skip_cons rfl]
  simp only [readString_quote,colon,String.ofList_toList]

section
variable {F : Type} [Doubles F]

theorem literal_head {literal : Literal} (valid : literal.Valid) :
    ∃ c rest, literal.text = c :: rest ∧ (c = '-' ∨ c.isDigit = true) := by
  obtain ⟨negative,digits,fraction,exponent⟩ := literal
  cases negative with
  | true => exact ⟨_,_,rfl,.inl rfl⟩
  | false =>
    cases digits with
    | nil => exact absurd rfl valid.some_digit
    | cons d digits => exact ⟨_,_,rfl,.inr (valid.digits d List.mem_cons_self)⟩

/-- A digit or a sign is none of the characters that start another value or end a container. -/
theorem number_head {c : Char} (head : c = '-' ∨ c.isDigit = true) :
    isBlank c = false ∧ c ∉ ['n','t','f','\x22','[','\x7b',']','\x7d'] := by
  have marks : [' ','\n','\t','\r','n','t','f','\x22','[','\x7b',']','\x7d'].all
      (fun d => decide (d ≠ '-' ∧ d.isDigit = false)) = true := by rfl
  have outside : ∀ d ∈ [' ','\n','\t','\r','n','t','f','\x22','[','\x7b',']','\x7d'],
      d ≠ '-' ∧ d.isDigit = false := fun d member => of_decide_eq_true (List.all_eq_true.mp marks d member)
  have differs : ∀ d ∈ [' ','\n','\t','\r','n','t','f','\x22','[','\x7b',']','\x7d'], c ≠ d := by
    rintro d member rfl
    obtain ⟨sign,digit⟩ := outside _ member
    rcases head with same | same
    · exact sign same
    · rw [digit] at same
      cases same
  constructor
  · simp only [isBlank,Bool.or_eq_false_iff,beq_eq_false_iff_ne]
    exact ⟨⟨⟨differs _ (by decide),differs _ (by decide)⟩,differs _ (by decide)⟩,differs _ (by decide)⟩
  · intro member
    exact differs c (List.mem_append_right [' ','\n','\t','\r'] member) rfl

/-- What is written for a value starts with no blank and with no end of a container. -/
theorem emit_head (value : Json F) :
    ∃ c rest, value.emit = c :: rest ∧ isBlank c = false ∧ c ≠ ']' ∧ c ≠ '\x7d' := by
  cases value with
  | null => exact ⟨_,_,rfl,by decide⟩
  | bool b => cases b <;> exact ⟨_,_,rfl,by decide⟩
  | string text => exact ⟨_,_,rfl,by decide⟩
  | array items => cases items <;> exact ⟨_,_,rfl,by decide⟩
  | object fields => cases fields <;> exact ⟨_,_,rfl,by decide⟩
  | number n =>
    obtain ⟨c,rest,text,head⟩ := literal_head n.literal_valid
    obtain ⟨dark,other⟩ := number_head head
    refine ⟨c,rest,text,dark,?_,?_⟩
    · rintro rfl
      exact other (by decide)
    · rintro rfl
      exact other (by decide)

theorem readNumber_text {n : Number F} {rest : List Char} (ends : Ends rest) :
    readNumber (n.literal.text ++ rest) = some (.number n,rest) := by
  rw [readNumber,scan_text n.literal_valid ends]
  simp only [Number.ofLiteral_literal,Option.map_some]

theorem readValue_number {n : Number F} {fuel depth : Nat} {rest : List Char} (ends : Ends rest) :
    readValue (fuel + 1) depth (n.literal.text ++ rest) = some (.number n,rest) := by
  have read := readNumber_text (n := n) ends
  obtain ⟨c,tail,text,head⟩ := literal_head n.literal_valid
  obtain ⟨dark,other⟩ := number_head head
  rw [text,List.cons_append] at read ⊢
  simp only [List.mem_cons,not_or] at other
  obtain ⟨a,b,d,e,f,g,_⟩ := other
  rw [readValue,skip_cons dark]
  dsimp only
  rw [if_neg a,if_neg b,if_neg d,if_neg e,if_neg f,if_neg g,read]

theorem ends_items (items : List (Json F)) (rest : List Char) : Ends (emitItems items ++ rest) := by
  cases items <;> exact ends_cons (by decide)

theorem ends_fields (fields : List (String × Json F)) (rest : List Char) :
    Ends (emitFields fields ++ rest) := by
  cases fields <;> exact ends_cons (by decide)

theorem emitItems_length (items : List (Json F)) : 0 < (emitItems items).length := by
  cases items <;> exact Nat.succ_pos _

theorem emitFields_length (fields : List (String × Json F)) : 0 < (emitFields fields).length := by
  cases fields <;> exact Nat.succ_pos _

theorem first_item {item : Json F} {rest : List Char} :
    (skip (item.emit ++ rest)).head? ≠ some ']' := by
  obtain ⟨c,tail,text,dark,other,_⟩ := emit_head item
  rw [text,List.cons_append,skip_cons dark]
  intro same
  exact other (Option.some.inj same)

mutual
/-- A value is read back from its text, whatever text follows that does not go on with it. -/
theorem readValue_emit : ∀ (value : Json F) (fuel depth : Nat) (rest : List Char),
    value.emit.length < fuel → value.nesting < depth → Ends rest →
    readValue fuel depth (value.emit ++ rest) = some (value,rest)
  | .null,fuel + 1,_,_,_,_,_ => rfl
  | .bool true,fuel + 1,_,_,_,_,_ => rfl
  | .bool false,fuel + 1,_,_,_,_,_ => rfl
  | .number n,fuel + 1,_,_,_,_,ends => readValue_number ends
  | .string text,fuel + 1,depth,rest,_,_,_ => by
    show readValue (fuel + 1) depth (quote text ++ rest) = _
    rw [quote_append,readValue,skip_cons rfl]
    dsimp only
    rw [if_neg (by decide),if_neg (by decide),if_neg (by decide),if_pos rfl,readString_quote]
    simp only [Option.map_some,String.ofList_toList]
  | .array [],fuel + 1,depth,rest,_,shallow,_ => by
    have open_depth : ¬ depth ≤ 1 := by
      simp only [nesting,nestingItems] at shallow
      omega
    rw [readValue]
    show (if depth ≤ 1 then none else _) = _
    rw [if_neg open_depth]
    rfl
  | .array (item :: items),fuel + 1,depth,rest,room,shallow,ends => by
    simp only [nesting,nestingItems] at shallow
    simp only [emit,List.length_cons,List.length_append] at room
    have first := readValue_emit item fuel (depth - 1) (emitItems items ++ rest)
      (by omega) (by omega) (ends_items items rest)
    have others := readItems_emit items fuel (depth - 1) rest (by omega) (by omega)
    show readValue (fuel + 1) depth ('[' :: (item.emit ++ emitItems items) ++ rest) = _
    rw [List.cons_append,List.append_assoc,readValue,skip_cons rfl]
    dsimp only
    rw [if_neg (by decide),if_neg (by decide),if_neg (by decide),if_neg (by decide),if_pos rfl,
      if_neg (by omega),if_neg first_item,first]
    dsimp only
    rw [others]
    rfl
  | .object [],fuel + 1,depth,rest,_,shallow,_ => by
    have open_depth : ¬ depth ≤ 1 := by
      simp only [nesting,nestingFields] at shallow
      omega
    rw [readValue]
    show (if depth ≤ 1 then none else _) = _
    rw [if_neg open_depth]
    rfl
  | .object ((key,value) :: fields),fuel + 1,depth,rest,room,shallow,ends => by
    simp only [nesting,nestingFields] at shallow
    simp only [emit,List.length_cons,List.length_append] at room
    have first := readValue_emit value fuel (depth - 1) (emitFields fields ++ rest)
      (by omega) (by omega) (ends_fields fields rest)
    have others := readFields_emit fields fuel (depth - 1) rest (by omega) (by omega)
    have opened : (skip (quote key ++ ':' :: (value.emit ++ (emitFields fields ++ rest)))).head? ≠
        some '\x7d' := by
      rw [quote_append,skip_cons rfl]
      intro same
      cases Option.some.inj same
    show readValue (fuel + 1) depth ('\x7b' :: (quote key ++ ':' :: (value.emit ++ emitFields fields)) ++ rest) = _
    rw [List.cons_append,List.append_assoc,List.cons_append,List.append_assoc,readValue,skip_cons rfl]
    dsimp only
    rw [if_neg (by decide),if_neg (by decide),if_neg (by decide),if_neg (by decide),if_neg (by decide),if_pos rfl,
      if_neg (by omega),if_neg opened,readKey_quote]
    dsimp only
    rw [first]
    dsimp only
    rw [others]
    rfl

theorem readItems_emit : ∀ (items : List (Json F)) (fuel depth : Nat) (rest : List Char),
    (emitItems items).length ≤ fuel → nestingItems items < depth →
    readItems fuel depth (emitItems items ++ rest) = some (items,rest)
  | [],fuel + 1,_,_,_,_ => rfl
  | [],0,_,_,room,_ => by cases room
  | item :: items,0,_,_,room,_ => by cases room
  | item :: items,fuel + 1,depth,rest,room,shallow => by
    simp only [nestingItems] at shallow
    simp only [emitItems,List.length_cons,List.length_append] at room
    have := emitItems_length items
    have first := readValue_emit item fuel depth (emitItems items ++ rest)
      (by omega) (by omega) (ends_items items rest)
    have others := readItems_emit items fuel depth rest (by omega) (by omega)
    show readItems (fuel + 1) depth (',' :: (item.emit ++ emitItems items) ++ rest) = _
    rw [List.cons_append,List.append_assoc,readItems,skip_cons rfl]
    dsimp only
    rw [if_neg (by decide),if_pos rfl,first]
    dsimp only
    rw [others]
    rfl

theorem readFields_emit : ∀ (fields : List (String × Json F)) (fuel depth : Nat) (rest : List Char),
    (emitFields fields).length ≤ fuel → nestingFields fields < depth →
    readFields fuel depth (emitFields fields ++ rest) = some (fields,rest)
  | [],fuel + 1,_,_,_,_ => rfl
  | [],0,_,_,room,_ => by cases room
  | _ :: _,0,_,_,room,_ => by cases room
  | (key,value) :: fields,fuel + 1,depth,rest,room,shallow => by
    simp only [nestingFields] at shallow
    simp only [emitFields,List.length_cons,List.length_append] at room
    have := emitFields_length fields
    have first := readValue_emit value fuel depth (emitFields fields ++ rest)
      (by omega) (by omega) (ends_fields fields rest)
    have others := readFields_emit fields fuel depth rest (by omega) (by omega)
    show readFields (fuel + 1) depth (',' :: (quote key ++ ':' :: (value.emit ++ emitFields fields)) ++ rest) = _
    rw [List.cons_append,List.append_assoc,List.cons_append,List.append_assoc,readFields,skip_cons rfl]
    dsimp only
    rw [if_neg (by decide),if_pos rfl,readKey_quote]
    dsimp only
    rw [first]
    dsimp only
    rw [others]
    rfl
end

/-- The round trip of a text: what is written for a value is read as that value. -/
theorem parse_emit {value : Json F} (shallow : value.nesting < depthLimit) : parse value.emit = some value := by
  have read := readValue_emit value (value.emit.length + 1) depthLimit [] (by omega) shallow ends_nil
  rw [List.append_nil] at read
  rw [parse,read]
  rfl

/-- The words of a text and their values. -/
def words : List (List Char × Json F) :=
  [(['n','u','l','l'],.null),(['t','r','u','e'],.bool true),(['f','a','l','s','e'],.bool false)]

/-- What the reader does at a value whose blanks are gone. -/
inductive ValueRead (fuel depth : Nat) : List Char → Json F → List Char → Prop
  | word {c : Char} {word rest : List Char} {value : Json F} (known : (c :: word,value) ∈ words) :
    ValueRead fuel depth (c :: (word ++ rest)) value rest
  | string {tail chars rest : List Char} (read : readString tail.length tail = some (chars,rest)) :
    ValueRead fuel depth ('\x22' :: tail) (.string (String.ofList chars)) rest
  | number {text rest : List Char} {literal : Literal} {n : Number F} (scanned : scan text = some (literal,rest))
    (known : Number.ofLiteral literal = some n) : ValueRead fuel depth text (.number n) rest
  | emptyArray {tail rest : List Char} (deep : 1 < depth) (closes : skip tail = ']' :: rest) :
    ValueRead fuel depth ('[' :: tail) (.array []) rest
  | array {tail between rest : List Char} {item : Json F} {items : List (Json F)} (deep : 1 < depth)
    (first : readValue fuel (depth - 1) tail = some (item,between))
    (others : readItems fuel (depth - 1) between = some (items,rest)) :
    ValueRead fuel depth ('[' :: tail) (.array (item :: items)) rest
  | emptyObject {tail rest : List Char} (deep : 1 < depth) (closes : skip tail = '\x7d' :: rest) :
    ValueRead fuel depth ('\x7b' :: tail) (.object []) rest
  | object {tail after between rest : List Char} {key : String} {value : Json F} {fields : List (String × Json F)}
    (deep : 1 < depth) (named : readKey tail = some (key,after))
    (first : readValue fuel (depth - 1) after = some (value,between))
    (others : readFields fuel (depth - 1) between = some (fields,rest)) :
    ValueRead fuel depth ('\x7b' :: tail) (.object ((key,value) :: fields)) rest

omit [Doubles F] in
theorem readWord_some {word text rest : List Char} {value read : Json F}
    (done : readWord word value text = some (read,rest)) : text = word ++ rest ∧ read = value := by
  unfold readWord at done
  split at done
  next taken =>
    obtain ⟨rfl,rfl⟩ := Prod.mk.inj (Option.some.inj done)
    have parts := List.take_append_drop word.length text
    rw [taken] at parts
    exact ⟨parts.symm,rfl⟩
  next => cases done

theorem valueRead_word {fuel depth : Nat} {c : Char} {word text rest : List Char} {value read : Json F}
    (known : (c :: word,value) ∈ words) (done : readWord word value text = some (read,rest)) :
    ValueRead fuel depth (c :: text) read rest := by
  obtain ⟨rfl,rfl⟩ := readWord_some done
  exact .word known

theorem readNumber_some {text rest : List Char} {read : Json F} (done : readNumber text = some (read,rest)) :
    ∃ literal n, scan text = some (literal,rest) ∧ Number.ofLiteral literal = some n ∧ read = .number n := by
  unfold readNumber at done
  split at done
  next => cases done
  next literal tail scanned =>
    obtain ⟨n,known,same⟩ := Option.map_eq_some_iff.mp done
    obtain ⟨rfl,rfl⟩ := Prod.mk.inj same
    exact ⟨literal,n,scanned,known,rfl⟩

theorem skip_head {text : List Char} {c : Char} (closes : (skip text).head? = some c) :
    skip text = c :: (skip text).tail := by
  obtain ⟨rest,skipped⟩ := List.head?_eq_some_iff.mp closes
  rw [skipped]
  rfl

theorem readValue_cases {fuel depth : Nat} {text rest : List Char} {value : Json F}
    (done : readValue (fuel + 1) depth text = some (value,rest)) : ValueRead fuel depth (skip text) value rest := by
  rw [readValue] at done
  split at done
  next => cases done
  next c tail skipped =>
    rw [skipped]
    split at done
    next same => exact valueRead_word (by rw [same]; exact .head _) done
    next =>
      split at done
      next same => exact valueRead_word (by rw [same]; exact .tail _ (.head _)) done
      next =>
        split at done
        next same => exact valueRead_word (by rw [same]; exact .tail _ (.tail _ (.head _))) done
        next =>
          split at done
          next same =>
            obtain ⟨⟨chars,left⟩,read,again⟩ := Option.map_eq_some_iff.mp done
            obtain ⟨rfl,rfl⟩ := Prod.mk.inj again
            exact same ▸ .string read
          next =>
            split at done
            next same =>
              subst same
              split at done
              next => cases done
              next deep =>
                split at done
                next closes =>
                  obtain ⟨rfl,rfl⟩ := Prod.mk.inj (Option.some.inj done)
                  exact .emptyArray (not_le.mp deep) (skip_head closes)
                next =>
                  split at done
                  next => cases done
                  next first =>
                    obtain ⟨⟨items,left⟩,others,again⟩ := Option.map_eq_some_iff.mp done
                    obtain ⟨rfl,rfl⟩ := Prod.mk.inj again
                    exact .array (not_le.mp deep) first others
            next =>
              split at done
              next same =>
                subst same
                split at done
                next => cases done
                next deep =>
                  split at done
                  next closes =>
                    obtain ⟨rfl,rfl⟩ := Prod.mk.inj (Option.some.inj done)
                    exact .emptyObject (not_le.mp deep) (skip_head closes)
                  next =>
                    split at done
                    next => cases done
                    next named =>
                      split at done
                      next => cases done
                      next first =>
                        obtain ⟨⟨fields,left⟩,others,again⟩ := Option.map_eq_some_iff.mp done
                        obtain ⟨rfl,rfl⟩ := Prod.mk.inj again
                        exact .object (not_le.mp deep) named first others
              next =>
                obtain ⟨literal,n,scanned,known,rfl⟩ := readNumber_some done
                exact .number scanned known

/-- What the reader does after an item. -/
theorem readItems_cases {fuel depth : Nat} {text rest : List Char} {items : List (Json F)}
    (done : readItems (fuel + 1) depth text = some (items,rest)) :
    skip text = ']' :: rest ∧ items = [] ∨
      ∃ tail item between others, skip text = ',' :: tail ∧ readValue fuel depth tail = some (item,between) ∧
        readItems fuel depth between = some (others,rest) ∧ items = item :: others := by
  rw [readItems] at done
  split at done
  next => cases done
  next c tail skipped =>
    split at done
    next close =>
      obtain ⟨rfl,rfl⟩ := Prod.mk.inj (Option.some.inj done)
      exact .inl ⟨close ▸ skipped,rfl⟩
    next =>
      split at done
      next comma =>
        split at done
        next => cases done
        next item between first =>
          obtain ⟨⟨others,left⟩,later,same⟩ := Option.map_eq_some_iff.mp done
          obtain ⟨rfl,rfl⟩ := Prod.mk.inj same
          exact .inr ⟨tail,item,between,others,comma ▸ skipped,first,later,rfl⟩
      next => cases done

theorem readFields_cases {fuel depth : Nat} {text rest : List Char} {fields : List (String × Json F)}
    (done : readFields (fuel + 1) depth text = some (fields,rest)) :
    skip text = '\x7d' :: rest ∧ fields = [] ∨
      ∃ tail key after value between others, skip text = ',' :: tail ∧ readKey tail = some (key,after) ∧
        readValue fuel depth after = some (value,between) ∧ readFields fuel depth between = some (others,rest) ∧
        fields = (key,value) :: others := by
  rw [readFields] at done
  split at done
  next => cases done
  next c tail skipped =>
    split at done
    next close =>
      obtain ⟨rfl,rfl⟩ := Prod.mk.inj (Option.some.inj done)
      exact .inl ⟨close ▸ skipped,rfl⟩
    next =>
      split at done
      next comma =>
        split at done
        next => cases done
        next key after named =>
          split at done
          next => cases done
          next value between first =>
            obtain ⟨⟨others,left⟩,later,same⟩ := Option.map_eq_some_iff.mp done
            obtain ⟨rfl,rfl⟩ := Prod.mk.inj same
            exact .inr ⟨tail,key,after,value,between,others,comma ▸ skipped,named,first,later,rfl⟩
      next => cases done

omit [Doubles F] in
theorem words_flat {text : List Char} {value : Json F} (known : (text,value) ∈ words) : value.nesting = 0 := by
  simp only [words,List.mem_cons,List.not_mem_nil,or_false,Prod.mk.injEq] at known
  rcases known with ⟨_,rfl⟩ | ⟨_,rfl⟩ | ⟨_,rfl⟩ <;> rfl

/-- What is read nests to less than the depth that was left. -/
theorem read_nesting (fuel : Nat) :
    (∀ {depth : Nat} {text rest : List Char} {value : Json F},
      readValue fuel depth text = some (value,rest) → 0 < depth → value.nesting < depth) ∧
    (∀ {depth : Nat} {text rest : List Char} {items : List (Json F)},
      readItems fuel depth text = some (items,rest) → 0 < depth → nestingItems items < depth) ∧
    ∀ {depth : Nat} {text rest : List Char} {fields : List (String × Json F)},
      readFields fuel depth text = some (fields,rest) → 0 < depth → nestingFields fields < depth := by
  induction fuel with
  | zero => refine ⟨?_,?_,?_⟩ <;> intro _ _ _ _ done <;> cases done
  | succ fuel ih =>
    obtain ⟨values,items,fields⟩ := ih
    refine ⟨?_,?_,?_⟩
    · intro depth text rest value done some_depth
      -- a container takes one from the depth
      have read := readValue_cases done
      generalize skip text = shown at read
      cases read with
      | word known => rwa [words_flat known]
      | string => exact some_depth
      | number => exact some_depth
      | emptyArray deep closes => exact deep
      | array deep first others =>
        have := values first (by omega)
        have := items others (by omega)
        simp only [nesting,nestingItems]
        omega
      | emptyObject deep closes => exact deep
      | object deep named first others =>
        have := values first (by omega)
        have := fields others (by omega)
        simp only [nesting,nestingFields]
        omega
    · intro depth text rest read done some_depth
      obtain ⟨_,rfl⟩ | ⟨_,_,_,_,_,first,later,rfl⟩ := readItems_cases done
      · exact some_depth
      · exact max_lt (values first some_depth) (items later some_depth)
    · intro depth text rest read done some_depth
      obtain ⟨_,rfl⟩ | ⟨_,_,_,_,_,_,_,_,first,later,rfl⟩ := readFields_cases done
      · exact some_depth
      · exact max_lt (values first some_depth) (fields later some_depth)

theorem parse_nesting {text : List Char} {value : Json F} (parsed : parse text = some value) :
    value.nesting < depthLimit := by
  unfold parse at parsed
  split at parsed
  next => cases parsed
  next read _ done =>
    split at parsed
    next =>
      obtain rfl := Option.some.inj parsed
      exact (read_nesting _).1 done (by decide)
    next => cases parsed

end

end Entorhinal.Json
