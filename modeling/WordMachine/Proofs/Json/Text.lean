import WordMachine.Proofs.Json.Scalars

/-!
# Reading what has been written

The pretty form of a value reads back as the value.  This holds of the values whose numbers are
integers and whose objects repeat no key, `Plain`: of a repeated key only the last value would be
left, and another number is written as whatever its literal is.

`prettyChars` are the characters of the pretty form.  The reader is followed through them with
any text behind them that is apart from the value, item by item and member by member.
-/

namespace WordMachine.Json

/-! ## The characters of a value -/

mutual

/-- The numbers of the value are integers, and its objects repeat no key. -/
def Plain : Json → Prop
  | real _ => False
  | arr items => PlainItems items
  | obj members => (members.map Prod.fst).Nodup ∧ PlainMembers members
  | _ => True

def PlainItems : List Json → Prop
  | [] => True
  | item :: rest => item.Plain ∧ PlainItems rest

def PlainMembers : List (String × Json) → Prop
  | [] => True
  | (_, value) :: rest => value.Plain ∧ PlainMembers rest

end

mutual

/-- The characters of the pretty form. -/
def prettyChars (level : Nat) : Json → List Char
  | arr (item :: rest) =>
    '[' :: (itemsChars (level + 1) true (item :: rest) ++ (lineChars level ++ [']']))
  | obj (entry :: rest) =>
    '\x7b' :: (membersChars (level + 1) true (entry :: rest) ++ (lineChars level ++ ['\x7d']))
  | value => value.scalar.toList

def itemsChars (level : Nat) (first : Bool) : List Json → List Char
  | [] => []
  | item :: rest =>
    (if first then [] else [',']) ++ (lineChars level ++
      (prettyChars level item ++ itemsChars level false rest))

def membersChars (level : Nat) (first : Bool) : List (String × Json) → List Char
  | [] => []
  | (key, value) :: rest =>
    (if first then [] else [',']) ++ (lineChars level ++ ((quoted key).toList ++
      ':' :: ' ' :: (prettyChars level value ++ membersChars level false rest)))

end

mutual

theorem toList_prettyAfter (level : Nat) :
    ∀ (value : Json) (out : String),
      (value.prettyAfter level out).toList = out.toList ++ prettyChars level value
  | arr [], out => by simp [prettyAfter, prettyChars]
  | arr (item :: rest), out => by
      rw [prettyAfter, String.toList_append, String.toList_append, toList_newLine,
        toList_prettyItems]
      simp [prettyChars]
  | obj [], out => by simp [prettyAfter, prettyChars]
  | obj (entry :: rest), out => by
      rw [prettyAfter, String.toList_append, String.toList_append, toList_newLine,
        toList_prettyMembers]
      simp [prettyChars]
  | null, out | bool _, out | int _, out | real _, out | str _, out => by
      simp [prettyAfter, prettyChars]

theorem toList_prettyItems (level : Nat) (first : Bool) :
    ∀ (items : List Json) (out : String),
      (prettyItems level first items out).toList = out.toList ++ itemsChars level first items
  | [], out => by simp [prettyItems, itemsChars]
  | item :: rest, out => by
      rw [prettyItems, toList_prettyItems, toList_prettyAfter, String.toList_append,
        toList_newLine]
      cases first <;> simp [itemsChars]

theorem toList_prettyMembers (level : Nat) (first : Bool) :
    ∀ (members : List (String × Json)) (out : String),
      (prettyMembers level first members out).toList =
        out.toList ++ membersChars level first members
  | [], out => by simp [prettyMembers, membersChars]
  | (key, value) :: rest, out => by
      rw [prettyMembers, toList_prettyMembers, toList_prettyAfter]
      cases first <;> simp [membersChars, toList_newLine]

end

theorem itemsChars_false (level : Nat) {items : List Json} (hne : items ≠ []) :
    itemsChars level false items = ',' :: itemsChars level true items := by
  cases items with
  | nil => exact absurd rfl hne
  | cons item rest => rfl

theorem membersChars_false
    (level : Nat) {members : List (String × Json)} (hne : members ≠ []) :
    membersChars level false members = ',' :: membersChars level true members := by
  cases members with
  | nil => exact absurd rfl hne
  | cons entry rest => rfl

/-! ## The text behind a value -/

theorem apart_cons
    {c : Char} (hc : isDigit c = false ∧ c ≠ '.' ∧ c ≠ 'e' ∧ c ≠ 'E') (text : List Char) :
    Apart (c :: text) := by
  intro d hd
  rw [List.head?_cons, Option.mem_some_iff] at hd
  exact hd ▸ hc

theorem apart_line (level : Nat) (text : List Char) : Apart (lineChars level ++ text) :=
  apart_cons (by decide) _

theorem apart_itemsChars (level outer : Nat) (items : List Json) (text : List Char) :
    Apart (itemsChars level false items ++ (lineChars outer ++ text)) := by
  cases items with
  | nil => exact apart_line outer text
  | cons item rest => exact apart_cons (by decide) _

theorem apart_membersChars
    (level outer : Nat) (members : List (String × Json)) (text : List Char) :
    Apart (membersChars level false members ++ (lineChars outer ++ text)) := by
  cases members with
  | nil => exact apart_line outer text
  | cons entry rest => exact apart_cons (by decide) _

/-! ## The steps of the reader -/

theorem readValue_skipBlanks (calls : Nat) (text : List Char) :
    readValue calls (skipBlanks text) = readValue calls text := by
  cases calls with
  | zero => rw [readValue, readValue]
  | succ calls => rw [readValue, readValue, skipBlanks_skipBlanks]

theorem readValue_line (calls level : Nat) (text : List Char) :
    readValue calls (lineChars level ++ text) = readValue calls text := by
  rw [← readValue_skipBlanks, skipBlanks_line, readValue_skipBlanks]

theorem readValue_blank (calls : Nat) (text : List Char) :
    readValue calls (' ' :: text) = readValue calls text := by
  rw [← readValue_skipBlanks calls text, ← readValue_skipBlanks]
  rfl

theorem readValue_quote (calls : Nat) (text : List Char) :
    readValue (calls + 1) ('"' :: text) =
      (readString [] text).map fun (text, rest) => (.str text, rest) := rfl

/-- A value begins with a character that neither is a blank nor closes an array. -/
theorem exists_prettyChars (level : Nat) {value : Json} (hplain : value.Plain) :
    ∃ c text, prettyChars level value = c :: text ∧ isBlank c = false ∧ c ≠ ']' := by
  cases value with
  | null => exact ⟨'n', _, rfl, rfl, by decide⟩
  | bool flag =>
      cases flag with
      | true => exact ⟨'t', _, rfl, rfl, by decide⟩
      | false => exact ⟨'f', _, rfl, rfl, by decide⟩
  | int value =>
      obtain ⟨c, text, htext, hc⟩ := exists_toList_toString value
      exact ⟨c, text, htext, isBlank_of_number hc, ne_of_number hc (by decide)⟩
  | real literal => exact hplain.elim
  | str text => exact ⟨_, _, toList_quoted text, rfl, by decide⟩
  | arr items =>
      cases items with
      | nil => exact ⟨'[', [']'], rfl, rfl, by decide⟩
      | cons item items => exact ⟨'[', _, rfl, rfl, by decide⟩
  | obj members =>
      cases members with
      | nil => exact ⟨'\x7b', ['\x7d'], rfl, rfl, by decide⟩
      | cons entry members => exact ⟨'\x7b', _, rfl, rfl, by decide⟩

theorem readItems_skipBlanks (calls : Nat) (seen : List Json) (text : List Char) :
    readItems calls seen (skipBlanks text) = readItems calls seen text := by
  cases calls with
  | zero => rw [readItems, readItems]
  | succ calls => rw [readItems, readItems, readValue_skipBlanks]

theorem readMembers_skipBlanks
    (calls : Nat) (seen : List (String × Json)) (text : List Char) :
    readMembers calls seen (skipBlanks text) = readMembers calls seen text := by
  cases calls with
  | zero => rw [readMembers, readMembers]
  | succ calls => rw [readMembers, readMembers, skipBlanks_skipBlanks]

theorem readValue_bracket
    {text : List Char} (hopen : ∀ rest, skipBlanks text ≠ ']' :: rest) (calls : Nat) :
    readValue (calls + 1) ('[' :: text) = readItems calls [] text := by
  have hskip : skipBlanks ('[' :: text) = '[' :: text := rfl
  rw [readValue, hskip]
  -- `hopen` rules out the case of an empty array.
  simp only
  exact readItems_skipBlanks calls [] text

theorem readValue_brace
    {text : List Char} (hopen : ∀ rest, skipBlanks text ≠ '\x7d' :: rest) (calls : Nat) :
    readValue (calls + 1) ('\x7b' :: text) = readMembers calls [] text := by
  have hskip : skipBlanks ('\x7b' :: text) = '\x7b' :: text := rfl
  rw [readValue, hskip]
  -- `hopen` rules out the case of an empty object.
  simp only
  exact readMembers_skipBlanks calls [] text

theorem skipBlanks_itemsChars_ne
    (level : Nat) {item : Json} (hplain : item.Plain) (items : List Json)
    (text rest : List Char) :
    skipBlanks (itemsChars level true (item :: items) ++ text) ≠ ']' :: rest := by
  obtain ⟨c, chars, hchars, hblank, hc⟩ := exists_prettyChars level hplain
  simp [itemsChars, hchars, skipBlanks_cons hblank, hc]

theorem skipBlanks_membersChars_ne
    (level : Nat) (entry : String × Json) (members : List (String × Json))
    (text rest : List Char) :
    skipBlanks (membersChars level true (entry :: members) ++ text) ≠ '\x7d' :: rest := by
  simp [membersChars, toList_quoted, skipBlanks_cons (c := '"') rfl]

theorem insertMember_of_not_mem
    {members : List (String × Json)} {key : String} (hkey : key ∉ members.map Prod.fst)
    (value : Json) :
    insertMember members key value = members ++ [(key, value)] := by
  have hnone : members.any (·.1 == key) = false := by
    rw [List.any_eq_false]
    intro entry hentry heq
    exact hkey (List.mem_map.mpr ⟨entry, hentry, eq_of_beq heq⟩)
  rw [insertMember, hnone]
  rfl

section Steps

variable {calls : Nat} {text left rest : List Char} {value : Json}

theorem readItems_comma {seen : List Json}
    (hvalue : readValue calls text = some (value, left))
    (hcomma : skipBlanks left = ',' :: rest) :
    readItems (calls + 1) seen text = readItems calls (value :: seen) rest := by
  simp [readItems, hvalue, hcomma]

theorem readItems_close {seen : List Json}
    (hvalue : readValue calls text = some (value, left))
    (hclose : skipBlanks left = ']' :: rest) :
    readItems (calls + 1) seen text = some (.arr (seen.reverse ++ [value]), rest) := by
  simp [readItems, hvalue, hclose]

variable {seen : List (String × Json)} {key : String}

theorem readMembers_comma
    (hvalue : readValue calls text = some (value, left))
    (hcomma : skipBlanks left = ',' :: rest) (level : Nat) :
    readMembers (calls + 1) seen (lineChars level ++ ((quoted key).toList ++ ':' :: text)) =
      readMembers calls (insertMember seen key value) rest := by
  have hkey := readString_quoted key (':' :: text)
  simp [readMembers, toList_quoted, skipBlanks_cons, isBlank, hkey, hvalue, hcomma]

theorem readMembers_close
    (hvalue : readValue calls text = some (value, left))
    (hclose : skipBlanks left = '\x7d' :: rest) (level : Nat) :
    readMembers (calls + 1) seen (lineChars level ++ ((quoted key).toList ++ ':' :: text)) =
      some (.obj (insertMember seen key value), rest) := by
  have hkey := readString_quoted key (':' :: text)
  simp [readMembers, toList_quoted, skipBlanks_cons, isBlank, hkey, hvalue, hclose]

end Steps

/-! ## Whole values -/

mutual

/-- The bound counts two calls for each character of the value, so that there is one left. -/
theorem readValue_prettyChars (level : Nat) :
    ∀ (value : Json) (calls : Nat) (rest : List Char), value.Plain → Apart rest →
      2 * (prettyChars level value).length ≤ calls →
      readValue (calls + 1) (prettyChars level value ++ rest) = some (value, rest)
  | null | bool true | bool false | arr [] | obj [] => by
      intro calls rest _ _ _
      simp only [prettyChars, scalar]
      rfl
  | real literal => by
      intro _ _ hplain
      exact hplain.elim
  | int value => by
      intro calls rest _ hrest _
      obtain ⟨c, text, htext, hc⟩ := exists_toList_toString value
      have hread := readNumber_toString value hrest
      have hchars : prettyChars level (int value) = c :: text := htext
      rw [htext, List.cons_append] at hread
      rw [hchars, List.cons_append, readValue_of_number hc, hread]
  | str text => by
      intro calls rest _ _ _
      have hchars : prettyChars level (str text) = (quoted text).toList := rfl
      rw [hchars, toList_quoted, List.cons_append, List.cons_append, List.append_assoc]
      rw [readValue_quote, List.singleton_append, readString_quoted]
      rfl
  | arr (item :: items) => by
      intro calls rest hplain _ hcalls
      simp only [prettyChars, List.length_cons, List.length_append] at hcalls
      obtain ⟨calls, rfl⟩ := Nat.exists_eq_add_one_of_ne_zero (n := calls) (by omega)
      have hitems := readItems_itemsChars (level + 1) (item :: items) calls level [] rest
        (List.cons_ne_nil _ _) hplain (by omega)
      rw [prettyChars, List.cons_append, readValue_bracket]
      · simpa using hitems
      · intro text
        rw [List.append_assoc]
        exact skipBlanks_itemsChars_ne (level + 1) hplain.1 items _ text
  | obj (entry :: members) => by
      rintro calls rest ⟨hkeys, hplain⟩ _ hcalls
      simp only [prettyChars, List.length_cons, List.length_append] at hcalls
      obtain ⟨calls, rfl⟩ := Nat.exists_eq_add_one_of_ne_zero (n := calls) (by omega)
      have hmembers := readMembers_membersChars (level + 1) (entry :: members) calls level []
        rest (List.cons_ne_nil _ _) hkeys hplain (by omega)
      rw [prettyChars, List.cons_append, readValue_brace]
      · simpa using hmembers
      · intro text
        rw [List.append_assoc]
        exact skipBlanks_membersChars_ne (level + 1) entry members _ text

theorem readItems_itemsChars (level : Nat) :
    ∀ (items : List Json) (calls outer : Nat) (seen : List Json) (rest : List Char),
      items ≠ [] → PlainItems items → 2 * (itemsChars level true items).length ≤ calls →
      readItems (calls + 1) seen
          (itemsChars level true items ++ (lineChars outer ++ ']' :: rest)) =
        some (.arr (seen.reverse ++ items), rest)
  | [] => by
      intro _ _ _ _ hne
      exact absurd rfl hne
  | item :: items => by
      rintro calls outer seen rest - ⟨hitem, hitems⟩ hcalls
      -- the line break in front of the item pays for the call that reads it
      simp only [itemsChars, lineChars, List.length_append, List.length_cons] at hcalls
      obtain ⟨calls, rfl⟩ := Nat.exists_eq_add_one_of_ne_zero (n := calls) (by omega)
      have hvalue := readValue_prettyChars level item calls _ hitem
        (apart_itemsChars level outer items (']' :: rest)) (by omega)
      rw [← readValue_line (calls + 1) level] at hvalue
      simp only [itemsChars, if_true, List.nil_append, List.append_assoc]
      by_cases hnil : items = []
      · subst hnil
        rw [readItems_close hvalue]
        rw [itemsChars, List.nil_append, skipBlanks_line, skipBlanks_cons rfl]
      · have hcomma := itemsChars_false level hnil
        rw [hcomma, List.length_cons] at hcalls
        have hread := readItems_itemsChars level items calls outer (item :: seen) rest hnil
          hitems (by omega)
        rw [hcomma, List.cons_append] at hvalue ⊢
        rw [readItems_comma hvalue (skipBlanks_cons rfl _), hread]
        simp

theorem readMembers_membersChars (level : Nat) :
    ∀ (members : List (String × Json)) (calls outer : Nat) (seen : List (String × Json))
      (rest : List Char),
      members ≠ [] → ((seen ++ members).map Prod.fst).Nodup → PlainMembers members →
      2 * (membersChars level true members).length ≤ calls →
      readMembers (calls + 1) seen
          (membersChars level true members ++ (lineChars outer ++ '\x7d' :: rest)) =
        some (.obj (seen ++ members), rest)
  | [] => by
      intro _ _ _ _ hne
      exact absurd rfl hne
  | (key, value) :: members => by
      rintro calls outer seen rest - hkeys ⟨hplain, hmembers⟩ hcalls
      simp only [membersChars, lineChars, List.length_append, List.length_cons] at hcalls
      obtain ⟨calls, rfl⟩ := Nat.exists_eq_add_one_of_ne_zero (n := calls) (by omega)
      have hvalue := readValue_prettyChars level value calls _ hplain
        (apart_membersChars level outer members ('\x7d' :: rest)) (by omega)
      rw [← readValue_blank] at hvalue
      -- so the reader adds the member at the end and replaces none
      have hfresh : key ∉ seen.map Prod.fst := by
        intro hmem
        rw [List.map_append, List.map_cons, List.nodup_append] at hkeys
        exact hkeys.2.2 key hmem key List.mem_cons_self rfl
      have hinsert := insertMember_of_not_mem hfresh value
      simp only [membersChars, if_true, List.nil_append, List.append_assoc, List.cons_append]
      by_cases hnil : members = []
      · subst hnil
        rw [readMembers_close hvalue, hinsert]
        rw [membersChars, List.nil_append, skipBlanks_line, skipBlanks_cons rfl]
      · have hcomma := membersChars_false level hnil
        rw [hcomma, List.length_cons] at hcalls
        have hread := readMembers_membersChars level members calls outer (seen ++ [(key, value)])
          rest hnil (by simpa using hkeys) hmembers (by omega)
        rw [hcomma, List.cons_append] at hvalue ⊢
        rw [readMembers_comma hvalue (skipBlanks_cons rfl _), hinsert, hread]
        simp

end

/-- The pretty form of a value reads back as the value. -/
theorem parse?_pretty {value : Json} (hplain : value.Plain) :
    parse? value.pretty = some value := by
  have htext : value.pretty.toList = prettyChars 0 value := by
    rw [pretty, toList_prettyAfter]
    simp
  have hapart : Apart [] := by
    intro c hc
    simp at hc
  have hread := readValue_prettyChars 0 value (2 * (prettyChars 0 value).length + 1) [] hplain
    hapart (by omega)
  rw [List.append_nil] at hread
  simp [parse?, htext, hread, skipBlanks]

end WordMachine.Json
