import TreePath.Json.Reader
import TreePath.Json.Writer
import TreePath.Proofs.Json.Numerals
import TreePath.Proofs.Json.Sorting
import TreePath.Proofs.Json.Strings
import TreePath.Proofs.Json.Values

set_option autoImplicit false

/-!
# Written values read back

A value is read back from its text in either form, if its members are in order of their keys, its
floats are legible and its containers are not nested too deep. The blanks of a form are skipped, so
both forms are read alike. The items of a container are read by one loop, whatever they are: it goes
from comma to comma, and every item ends where its comma or the bracket stands.
-/

namespace TreePath.Json

/-! ## Blanks -/

theorem skipBlanks_append {blanks : List Char}
    (blank : ∀ character ∈ blanks, isBlank character = true) (text : List Char) :
    skipBlanks (blanks ++ text) = skipBlanks text :=
  List.dropWhile_append_of_pos blank

/-- The gaps of a style are blank, and so is what its colons have after them. -/
structure Style.IsBlank (style : Style) : Prop where
  gap : ∀ depth, ∀ character ∈ style.gap depth, isBlank character = true
  colon : ∃ blanks, style.colon = ':' :: blanks ∧ ∀ character ∈ blanks, isBlank character = true

theorem Style.isBlank_compact : Style.compact.IsBlank where
  gap _ _ membership := by cases membership
  colon := ⟨[], rfl, fun _ membership => by cases membership⟩

theorem Style.isBlank_pretty : Style.pretty.IsBlank where
  gap depth character membership := by
    rcases List.mem_cons.mp membership with rfl | indented
    · rfl
    · rw [List.eq_of_mem_replicate indented]
      rfl
  colon := ⟨[' '], rfl, fun _ membership => List.mem_singleton.mp membership ▸ rfl⟩

/-- A bracket that closes a container. -/
def IsClosing (character : Char) : Prop :=
  character = ']' ∨ character = '}'

theorem endsNumeral_blanks {blanks : List Char} {closing : Char}
    (blank : ∀ character ∈ blanks, isBlank character = true) (closes : IsClosing closing)
    (rest : List Char) : endsNumeral (blanks ++ closing :: rest) = true := by
  cases blanks with
  | nil => rcases closes with rfl | rfl <;> rfl
  | cons first later =>
      have firstBlank := blank first List.mem_cons_self
      simp only [isBlank, Bool.or_eq_true, decide_eq_true_eq] at firstBlank
      rcases firstBlank with ((rfl | rfl) | rfl) | rfl <;> rfl

/-! ## The loop over the items of a container -/

section Items

variable {State Entry : Type} {closing : Char}
  {item : State → List Char → Except Fault (State × List Char)} {written : Entry → List Char}
  {next : State → Entry → State} {gap tail rest : List Char}

/-- What stands between the brackets of a container that is not empty: its items, each behind a gap
and with commas between them. -/
def inside (gap : List Char) (written : Entry → List Char) (entry : Entry) :
    List Entry → List Char
  | [] => gap ++ written entry
  | other :: later => gap ++ written entry ++ ',' :: inside gap written other later

theorem length_le_length_inside (entry : Entry) (entries : List Entry) :
    entries.length ≤ (inside gap written entry entries).length := by
  induction entries generalizing entry with
  | nil => exact Nat.zero_le _
  | cons other later inductionHypothesis =>
      have further := inductionHypothesis other
      simp only [inside, List.length_append, List.length_cons]
      omega

/-- A reader takes a written item up to where it ends. -/
def Takes (item : State → List Char → Except Fault (State × List Char)) (gap : List Char)
    (written : Entry → List Char) (next : State → Entry → State) (entry : Entry) : Prop :=
  ∀ (state : State) ⦃rest : List Char⦄, endsNumeral rest = true →
    item state (gap ++ written entry ++ rest) = .ok (next state entry, rest)

/-- The first item ends where the inside goes on. -/
theorem exists_inside_append (blank : ∀ character ∈ tail, isBlank character = true)
    (closes : IsClosing closing) (entry : Entry) (entries : List Entry) :
    ∃ more, inside gap written entry entries ++ (tail ++ closing :: rest) =
      gap ++ written entry ++ more ∧ endsNumeral more = true := by
  cases entries with
  | nil => exact ⟨_, rfl, endsNumeral_blanks blank closes rest⟩
  | cons other later => exact ⟨_, by rw [inside, List.append_assoc], rfl⟩

theorem readItems_inside (blank : ∀ character ∈ tail, isBlank character = true)
    (closes : IsClosing closing) (entry : Entry) (entries : List Entry) {fuel : Nat}
    (state : State) (takes : ∀ other ∈ entry :: entries, Takes item gap written next other)
    (enough : entries.length < fuel) :
    readItems closing item fuel state
        (inside gap written entry entries ++ (tail ++ closing :: rest)) =
      .ok ((entry :: entries).foldl next state, rest) := by
  induction entries generalizing entry fuel state with
  | nil =>
      obtain ⟨steps, rfl⟩ := Nat.exists_eq_add_one_of_ne_zero (Nat.ne_zero_of_lt enough)
      have first := takes entry List.mem_cons_self state
      rw [inside, readItems, first (endsNumeral_blanks blank closes rest)]
      simp only [skipBlanks_append blank]
      rcases closes with rfl | rfl <;> rfl
  | cons other later inductionHypothesis =>
      obtain ⟨steps, rfl⟩ := Nat.exists_eq_add_one_of_ne_zero (Nat.ne_zero_of_lt enough)
      have first := takes entry List.mem_cons_self state
      have further := inductionHypothesis other (next state entry)
        (fun another membership => takes another (List.mem_cons_of_mem entry membership))
        (Nat.lt_of_succ_lt_succ enough)
      rw [inside, List.append_assoc, List.cons_append, readItems, first rfl, List.foldl_cons,
        ← further]
      rfl

/-- A container is read item by item. That an item starts shows that the container is not empty. -/
theorem sequence_inside (blank : ∀ character ∈ tail, isBlank character = true)
    (closes : IsClosing closing)
    (starts : ∀ {text : List Char} {state : State} {result : State × List Char},
      item state text = .ok result →
      ∃ first later, skipBlanks text = first :: later ∧ first ≠ closing)
    (entry : Entry) (entries : List Entry) (state : State)
    (takes : ∀ other ∈ entry :: entries, Takes item gap written next other) :
    sequence closing item state (inside gap written entry entries ++ (tail ++ closing :: rest)) =
      .ok ((entry :: entries).foldl next state, rest) := by
  -- The commas alone keep the number of items below the length of the text.
  have enough : entries.length <
      (inside gap written entry entries ++ (tail ++ closing :: rest)).length := by
    have items := @length_le_length_inside Entry written gap entry entries
    simp only [List.length_append, List.length_cons]
    omega
  obtain ⟨more, goesOn, ends⟩ :=
    @exists_inside_append Entry closing written gap tail rest blank closes entry entries
  have first := takes entry List.mem_cons_self state ends
  rw [← goesOn] at first
  obtain ⟨character, later, shown, isItem⟩ := starts first
  rw [sequence, shown]
  exact (if_neg isItem).trans (readItems_inside blank closes entry entries state takes enough)

end Items

/-! ## Nesting -/

mutual

/-- How many containers there are within containers at most. -/
def nesting : Json → Nat
  | array items => nestingItems items + 1
  | object members => nestingMembers members + 1
  | _ => 0
termination_by structural json => json

def nestingItems : List Json → Nat
  | [] => 0
  | item :: rest => max (nesting item) (nestingItems rest)
termination_by structural items => items

def nestingMembers : List (String × Json) → Nat
  | [] => 0
  | (_, value) :: rest => max (nesting value) (nestingMembers rest)
termination_by structural members => members

end

theorem nestingItems_le_iff {items : List Json} {limit : Nat} :
    nestingItems items ≤ limit ↔ ∀ item ∈ items, item.nesting ≤ limit := by
  induction items with
  | nil => simp [nestingItems]
  | cons item rest inductionHypothesis => simp [nestingItems, inductionHypothesis]

theorem nestingMembers_le_iff {members : List (String × Json)} {limit : Nat} :
    nestingMembers members ≤ limit ↔ ∀ entry ∈ members, entry.2.nesting ≤ limit := by
  induction members with
  | nil => simp [nestingMembers]
  | cons entry rest inductionHypothesis => simp [nestingMembers, inductionHypothesis]

/-! ## Values -/

/-- A float is legible. -/
def hasLegibleFloat : Json → Bool
  | number (.float value finite) => (Number.float value finite).isLegible
  | _ => true

theorem isLegible_of_hasLegibleFloat {value : Number}
    (legible : (number value).hasLegibleFloat = true) : value.isLegible = true := by
  cases value with
  | int value least most => exact isLegible_int value least most
  | float value finite => exact legible

section Written

variable {style : Style} {depth limit : Nat} {text rest : List Char}

/-- A member as it stands in the text of an object. -/
def writeMember (style : Style) (depth : Nat) (entry : String × Json) : List Char :=
  writeString entry.1 ++ style.colon ++ entry.2.write style depth

theorem inside_items (item : Json) (later : List Json) :
    inside (style.gap depth) (fun item => item.write style depth) item later =
      style.gap depth ++ item.write style depth ++ writeItems style depth later := by
  induction later generalizing item with
  | nil => simp [inside, writeItems]
  | cons other later inductionHypothesis => simp [inside, writeItems, inductionHypothesis]

theorem inside_members (entry : String × Json) (later : List (String × Json)) :
    inside (style.gap depth) (writeMember style depth) entry later =
      style.gap depth ++ writeMember style depth entry ++ writeMembers style depth later := by
  induction later generalizing entry with
  | nil => simp [inside, writeMembers]
  | cons other later inductionHypothesis =>
      simp [inside, writeMembers, writeMember, inductionHypothesis]

theorem write_array_cons (item : Json) (later : List Json) :
    (array (item :: later)).write style depth ++ rest =
      '[' :: (inside (style.gap (depth + 1)) (fun item => item.write style (depth + 1)) item
        later ++ (style.gap depth ++ ']' :: rest)) := by
  simp [write, inside_items]

theorem write_object_cons (entry : String × Json) (later : List (String × Json)) :
    (object (entry :: later)).write style depth ++ rest =
      '{' :: (inside (style.gap (depth + 1)) (writeMember style (depth + 1)) entry later ++
        (style.gap depth ++ '}' :: rest)) := by
  simp [write, writeMember, inside_members]

theorem readValue_append {blanks : List Char}
    (blank : ∀ character ∈ blanks, isBlank character = true) :
    readValue limit (blanks ++ text) = readValue limit text := by
  unfold readValue
  rw [skipBlanks_append blank]

theorem readValue_array :
    readValue (limit + 1) ('[' :: text) =
      (sequence ']' (readElement (readValue limit)) [] text).map
        fun result => (array result.1.reverse, result.2) :=
  rfl

theorem readValue_object :
    readValue (limit + 1) ('{' :: text) =
      (sequence '}' (readMember (readValue limit)) [] text).map
        fun result => (object result.1, result.2) :=
  rfl

/-- An item is there where it can be read, and not the bracket that closes. -/
theorem skipBlanks_of_readElement {items : List Json} {result : List Json × List Char}
    (read : readElement (readValue limit) items text = .ok result) :
    ∃ first later, skipBlanks text = first :: later ∧ first ≠ ']' := by
  unfold readElement readValue at read
  generalize skipBlanks text = shown at read
  cases shown with
  | nil => cases read
  | cons first later =>
      refine ⟨first, later, rfl, ?_⟩
      rintro rfl
      cases read

theorem skipBlanks_of_readMember {value : List Char → Except Fault (Json × List Char)}
    {members : List (String × Json)} {result : List (String × Json) × List Char}
    (read : readMember value members text = .ok result) :
    ∃ first later, skipBlanks text = first :: later ∧ first ≠ '}' := by
  unfold readMember readKey at read
  generalize skipBlanks text = shown at read
  cases shown with
  | nil => cases read
  | cons first later =>
      refine ⟨first, later, rfl, ?_⟩
      rintro rfl
      cases read

/-- A value is read from its text, wherever that stands. -/
def IsReadBack (style : Style) (limit : Nat) (json : Json) : Prop :=
  ∀ (depth : Nat) {rest : List Char}, endsNumeral rest = true →
    readValue limit (json.write style depth ++ rest) = .ok (json, rest)

theorem takes_item (blank : style.IsBlank) {item : Json}
    (readBack : IsReadBack style limit item) :
    Takes (readElement (readValue limit)) (style.gap depth) (fun item => item.write style depth)
      (fun items item => item :: items) item := by
  intro items rest ends
  rw [readElement, List.append_assoc, readValue_append (blank.gap depth), readBack depth ends]
  rfl

theorem takes_member (blank : style.IsBlank) {entry : String × Json}
    (readBack : IsReadBack style limit entry.2) :
    Takes (readMember (readValue limit)) (style.gap depth) (writeMember style depth)
      (fun members entry => insertSorted entry.1 entry.2 members) entry := by
  intro members rest ends
  obtain ⟨blanks, colon, colonBlank⟩ := blank.colon
  have shape : style.gap depth ++ writeMember style depth entry ++ rest =
      style.gap depth ++ '"' :: (entry.1.toList.flatMap escaped ++
        '"' :: (':' :: (blanks ++ (entry.2.write style depth ++ rest)))) := by
    simp [writeMember, writeString, colon]
  have key : readKey (style.gap depth ++ '"' :: (entry.1.toList.flatMap escaped ++
      '"' :: (':' :: (blanks ++ (entry.2.write style depth ++ rest))))) =
      .ok (entry.1, ':' :: (blanks ++ (entry.2.write style depth ++ rest))) := by
    rw [readKey, skipBlanks_append (blank.gap depth)]
    exact readString_flatMap_escaped _ _
  have value : readValue limit (blanks ++ (entry.2.write style depth ++ rest)) =
      .ok (entry.2, rest) := by
    rw [readValue_append colonBlank, readBack depth ends]
  rw [shape, readMember, key]
  change (readValue limit _ >>= fun result => _) = _
  rw [value]
  rfl

theorem isReadBack_array (blank : style.IsBlank) {items : List Json}
    (readBack : ∀ item ∈ items, IsReadBack style limit item) :
    IsReadBack style (limit + 1) (array items) := by
  intro depth rest ends
  cases items with
  | nil => rfl
  | cons item later =>
      rw [write_array_cons, readValue_array, sequence_inside (blank.gap depth) (Or.inl rfl)
        skipBlanks_of_readElement item later [] fun other membership =>
          takes_item blank (readBack other membership), List.foldl_flip_cons_eq_append']
      simp [Except.map]

theorem isReadBack_object (blank : style.IsBlank) {members : List (String × Json)}
    (ordered : members.Pairwise fun entry other => entry.1 < other.1)
    (readBack : ∀ entry ∈ members, IsReadBack style limit entry.2) :
    IsReadBack style (limit + 1) (object members) := by
  intro depth rest ends
  cases members with
  | nil => rfl
  | cons entry later =>
      rw [write_object_cons, readValue_object, sequence_inside (blank.gap depth) (Or.inr rfl)
        skipBlanks_of_readMember entry later [] fun other membership =>
          takes_member blank (readBack other membership),
        foldl_insertSorted_eq (nodup_keys_of_pairwise_lt ordered),
        insertionSort_eq_of_pairwise_lt ordered]
      rfl

/-- What starts with neither a blank nor a bracket that opens is no container. -/
theorem readValue_scalar {first : Char} (solid : isBlank first = false) (noArray : first ≠ '[')
    (noObject : first ≠ '{') (later : List Char) :
    readValue limit (first :: later) = readScalar (first :: later) := by
  have shown : skipBlanks (first :: later) = first :: later :=
    List.dropWhile_cons_of_neg (by simp [solid])
  unfold readValue
  rw [shown]
  split
  · rename_i same
    exact absurd (List.cons.inj same).1 noArray
  · rename_i same
    exact absurd (List.cons.inj same).1 noObject
  · rfl

theorem readValue_number {first : Char} (starts : first = '-' ∨ first.isDigit = true)
    (later : List Char) :
    readValue limit (first :: later) =
      (readNumber (first :: later)).map fun result => (number result.1, result.2) := by
  rcases starts with rfl | digit
  · exact readValue_scalar rfl (by decide) (by decide) later
  · have differs {other : Char} (noDigit : other.isDigit = false) : first ≠ other := by
      rintro rfl
      exact Bool.noConfusion (noDigit.symm.trans digit)
    have solid : isBlank first = false := by
      simp only [isBlank, Bool.or_eq_false_iff, decide_eq_false_iff_not]
      exact ⟨⟨⟨differs rfl, differs rfl⟩, differs rfl⟩, differs rfl⟩
    rw [readValue_scalar solid (differs rfl) (differs rfl), readScalar, if_neg (differs rfl),
      if_neg (differs rfl), if_neg (differs rfl), if_neg (differs rfl), if_pos (by simp [digit])]

theorem isReadBack_number {value : Number} (legible : value.isLegible = true) :
    IsReadBack style limit (number value) := by
  intro depth rest ends
  have read := readNumber_write legible ends
  rw [write]
  cases text : value.write ++ rest with
  | nil =>
      rw [text] at read
      cases read
  | cons first later =>
      rw [text] at read
      rw [readValue_number (isDigit_of_readNumber read), read]
      rfl

theorem isReadBack_string (value : String) : IsReadBack style limit (string value) := by
  intro depth rest ends
  have read := readString_flatMap_escaped value rest
  have shape : writeString value ++ rest =
      '"' :: (value.toList.flatMap escaped ++ '"' :: rest) := by
    simp [writeString]
  rw [write, shape, readValue_scalar rfl (by decide) (by decide)]
  change (readString _).map _ = _
  rw [read]
  rfl

/-- A value is read back from its text in either style, if a reader may nest that deep. -/
theorem isReadBack_of_nesting_le (blank : style.IsBlank) {json : Json}
    (sorted : json.everywhere hasSortedKeys = true)
    (legible : json.everywhere hasLegibleFloat = true) (shallow : json.nesting ≤ limit) :
    IsReadBack style limit json := by
  induction json using Json.induct generalizing limit with
  | null =>
      intro depth rest ends
      exact readValue_scalar rfl (by decide) (by decide) _
  | bool value =>
      intro depth rest ends
      cases value <;> exact readValue_scalar rfl (by decide) (by decide) _
  | number value => exact isReadBack_number (isLegible_of_hasLegibleFloat legible)
  | string value => exact isReadBack_string value
  | array items inductionHypothesis =>
      obtain ⟨-, sortedBelow⟩ := everywhere_array_iff.mp sorted
      obtain ⟨-, legibleBelow⟩ := everywhere_array_iff.mp legible
      -- A container takes one level of the limit and leaves the others to its items.
      rw [nesting] at shallow
      obtain ⟨inner, rfl⟩ := Nat.exists_eq_add_of_le' (Nat.le_of_add_left_le shallow)
      have shallowBelow := nestingItems_le_iff.mp (Nat.le_of_succ_le_succ shallow)
      apply isReadBack_array blank
      intro item membership
      exact inductionHypothesis item membership (sortedBelow item membership)
        (legibleBelow item membership) (shallowBelow item membership)
  | object members inductionHypothesis =>
      obtain ⟨ordered, sortedBelow⟩ := everywhere_object_iff.mp sorted
      obtain ⟨-, legibleBelow⟩ := everywhere_object_iff.mp legible
      rw [nesting] at shallow
      obtain ⟨inner, rfl⟩ := Nat.exists_eq_add_of_le' (Nat.le_of_add_left_le shallow)
      have shallowBelow := nestingMembers_le_iff.mp (Nat.le_of_succ_le_succ shallow)
      apply isReadBack_object blank (hasSortedKeys_object_iff.mp ordered)
      intro entry membership
      exact inductionHypothesis entry membership (sortedBelow entry membership)
        (legibleBelow entry membership) (shallowBelow entry membership)

theorem parse_write (blank : style.IsBlank) {json : Json}
    (sorted : json.everywhere hasSortedKeys = true)
    (legible : json.everywhere hasLegibleFloat = true) (shallow : json.nesting ≤ maxNesting) :
    parse (String.ofList (json.write style depth)) = .ok json := by
  have noMore : endsNumeral [] = true := rfl
  have read := isReadBack_of_nesting_le blank sorted legible shallow depth noMore
  rw [List.append_nil] at read
  rw [parse, whole, String.toList_ofList, read]
  rfl

end Written

end TreePath.Json
