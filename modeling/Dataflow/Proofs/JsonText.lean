import Dataflow.Json

/-!
# The text of a JSON value

The compact text of a value is self-delimiting: from the text and whatever follows
it, both the value and what follows can be told.  Strings end at the first
quotation mark that is not escaped, and arrays and objects at the first closing
bracket where an item or a comma could stand.  So no two values have the same
text.
-/

namespace Dataflow

/-! ## Self-delimiting texts -/

/-- The value and what follows it are determined by both together. -/
def SelfDelimiting {α : Type} (text : α → List Char) (value : α) : Prop :=
  ∀ ⦃other : α⦄ ⦃rest rest' : List Char⦄,
    text value ++ rest = text other ++ rest' → value = other ∧ rest = rest'

/-- No text begins with this character, and none is empty. -/
def NeverOpens {α : Type} (text : α → List Char) (c : Char) : Prop :=
  ∀ (value : α) (rest rest' : List Char), text value ++ rest ≠ c :: rest'

section SelfDelimiting

variable {α : Type} {text : α → List Char} {close : Char}

/-- It is enough that there is a function that takes the value off the front. -/
theorem selfDelimiting_of_read {value : α} (read : List Char → Option (α × List Char))
    (hread : ∀ value rest, read (text value ++ rest) = some (value, rest)) :
    SelfDelimiting text value := by
  intro other rest rest' heq
  have hsame := congrArg read heq
  rw [hread, hread] at hsame
  exact Prod.mk.inj (Option.some.inj hsame)

theorem SelfDelimiting.cons {value : α} (hvalue : SelfDelimiting text value) (c : Char) :
    SelfDelimiting (fun part => c :: text part) value := by
  intro other rest rest' heq
  exact hvalue (List.tail_eq_of_cons_eq heq)

/-- Parts end where a character stands that opens none of them. -/
theorem selfDelimiting_flatMap (hopen : NeverOpens text close) {parts : List α}
    (hparts : ∀ part ∈ parts, SelfDelimiting text part) :
    SelfDelimiting (fun parts => parts.flatMap text ++ [close]) parts := by
  intro others rest rest' heq
  induction parts generalizing others with
  | nil =>
      cases others with
      | nil => exact ⟨rfl, List.tail_eq_of_cons_eq heq⟩
      | cons other others =>
          simp only [List.flatMap_cons, List.append_assoc] at heq
          exact absurd heq.symm (hopen other _ _)
  | cons part parts ih =>
      obtain ⟨hpart, hparts⟩ := List.forall_mem_cons.mp hparts
      cases others with
      | nil =>
          simp only [List.flatMap_cons, List.append_assoc] at heq
          exact absurd heq (hopen part _ _)
      | cons other others =>
          simp only [List.flatMap_cons, List.append_assoc] at heq
          obtain ⟨rfl, hafter⟩ := hpart heq
          simp only [← List.append_assoc] at hafter
          obtain ⟨rfl, hrest⟩ := ih hparts hafter
          exact ⟨rfl, hrest⟩

theorem intercalate_comma_cons (part : List Char) (parts : List (List Char)) :
    [','].intercalate (part :: parts) = part ++ parts.flatMap (',' :: ·) := by
  induction parts generalizing part with
  | nil => simp
  | cons next parts ih => simp [List.intercalate_cons_cons, ih]

/-- Parts with commas between them end where a character stands that neither opens
one of them nor is a comma. -/
theorem selfDelimiting_commas (hopen : NeverOpens text close) (hcomma : ',' ≠ close)
    {parts : List α} (hparts : ∀ part ∈ parts, SelfDelimiting text part) :
    SelfDelimiting (fun parts => [','].intercalate (parts.map text) ++ [close]) parts := by
  intro others rest rest' heq
  cases parts with
  | nil =>
      cases others with
      | nil => exact ⟨rfl, List.tail_eq_of_cons_eq heq⟩
      | cons other others =>
          simp only [List.map_cons, intercalate_comma_cons, List.append_assoc] at heq
          exact absurd heq.symm (hopen other _ _)
  | cons part parts =>
      obtain ⟨hpart, hparts⟩ := List.forall_mem_cons.mp hparts
      cases others with
      | nil =>
          simp only [List.map_cons, intercalate_comma_cons, List.append_assoc] at heq
          exact absurd heq (hopen part _ _)
      | cons other others =>
          have hmore : NeverOpens (fun part => ',' :: text part) close :=
            fun _ _ _ heq => hcomma (List.head_eq_of_cons_eq heq)
          simp only [List.map_cons, intercalate_comma_cons, List.append_assoc,
            List.flatMap_map] at heq
          obtain ⟨rfl, hafter⟩ := hpart heq
          simp only [← List.append_assoc] at hafter
          obtain ⟨rfl, hrest⟩ := selfDelimiting_flatMap hmore
            (fun part hmem => (hparts part hmem).cons ',') hafter
          exact ⟨rfl, hrest⟩

end SelfDelimiting

namespace Json

/-! ## Strings -/

/-- The number below sixteen that a hexadecimal digit stands for. -/
def hexValue (c : Char) : Nat :=
  if c.toNat < 'a'.toNat then c.toNat - '0'.toNat else c.toNat - 'a'.toNat + 10

theorem hexValue_hexDigit : ∀ n < 16, hexValue (hexDigit n) = n := by
  decide

/-- The character that is written at the front of a text, and what follows it. -/
def unescape : List Char → Option (Char × List Char)
  | [] => none
  | '\\' :: 'u' :: '0' :: '0' :: high :: low :: rest =>
    some (Char.ofNat (16 * hexValue high + hexValue low), rest)
  | '\\' :: 'b' :: rest => some ('\x08', rest)
  | '\\' :: 'f' :: rest => some ('\x0c', rest)
  | '\\' :: 'n' :: rest => some ('\n', rest)
  | '\\' :: 'r' :: rest => some ('\r', rest)
  | '\\' :: 't' :: rest => some ('\t', rest)
  | '\\' :: c :: rest => some (c, rest)
  | c :: rest => some (c, rest)

theorem unescape_escapeChar (c : Char) (rest : List Char) :
    unescape (escapeChar c ++ rest) = some (c, rest) := by
  have hcode : c.toNat < 0x20 →
      16 * hexValue (hexDigit (c.toNat / 16)) + hexValue (hexDigit (c.toNat % 16)) = c.toNat := by
    intro hcontrol
    rw [hexValue_hexDigit _ (by omega), hexValue_hexDigit _ (by omega), Nat.div_add_mod]
  unfold escapeChar
  repeat' split
  all_goals simp_all [unescape]

theorem selfDelimiting_escapeChar (c : Char) : SelfDelimiting escapeChar c :=
  selfDelimiting_of_read unescape unescape_escapeChar

/-- A quotation mark inside a string is escaped. -/
theorem neverOpens_escapeChar : NeverOpens escapeChar '"' := by
  intro c rest rest' heq
  have hread := unescape_escapeChar c rest
  rw [heq] at hread
  obtain rfl : '"' = c := by simpa [unescape] using congrArg (Option.map Prod.fst) hread
  simp [escapeChar] at heq

theorem toList_foldl_push (out : String) (cs : List Char) :
    (cs.foldl String.push out).toList = out.toList ++ cs := by
  induction cs generalizing out with
  | nil => simp
  | cons c cs ih => simp [ih]

/-- A string between its quotation marks. -/
def quoted (text : String) : List Char :=
  '"' :: (text.toList.flatMap escapeChar ++ ['"'])

theorem toList_quoteOnto (out text : String) :
    (quoteOnto out text).toList = out.toList ++ quoted text := by
  have hfold : ∀ (cs : List Char) (out : String),
      (cs.foldl (fun out c => (escapeChar c).foldl String.push out) out).toList =
        out.toList ++ cs.flatMap escapeChar := by
    intro cs
    induction cs with
    | nil => simp
    | cons c cs ih => simp [ih, toList_foldl_push]
  simp [quoteOnto, quoted, hfold]

theorem selfDelimiting_quoted (text : String) : SelfDelimiting quoted text := by
  intro other rest rest' heq
  obtain ⟨hchars, hrest⟩ := selfDelimiting_flatMap neverOpens_escapeChar
    (fun c _ => selfDelimiting_escapeChar c) (List.tail_eq_of_cons_eq heq)
  exact ⟨String.ext hchars, hrest⟩

/-! ## Values -/

/-- The compact text of a value as characters. -/
def text (value : Json) : List Char :=
  value.compact.toList

/-- A member of an object, its name before its value. -/
def memberText (member : String × Json) : List Char :=
  quoted member.1 ++ ':' :: member.2.text

mutual

theorem toList_writeOnto (out : String) :
    ∀ value : Json, (value.writeOnto out).toList = out.toList ++ value.text
  | .null => by simp [text, compact, writeOnto]
  | .string name => by simp [text, compact, writeOnto, toList_quoteOnto]
  | .array items => by
      have hitems := fun out => toList_writeItemsOnto out items
      simp [text, compact, writeOnto, hitems]
  | .object members => by
      have hmembers := fun out => toList_writeMembersOnto out members
      simp [text, compact, writeOnto, hmembers]

theorem toList_writeItemsOnto (out : String) : ∀ items : List Json,
    (writeItemsOnto out items).toList = out.toList ++ [','].intercalate (items.map text)
  | [] => by simp [writeItemsOnto]
  | [item] => by simp [writeItemsOnto, toList_writeOnto out item]
  | item :: next :: rest => by
      have hrest := fun out => toList_writeItemsOnto out (next :: rest)
      simp [writeItemsOnto, toList_writeOnto out item, hrest, List.intercalate_cons_cons]

theorem toList_writeMembersOnto (out : String) : ∀ members : List (String × Json),
    (writeMembersOnto out members).toList =
      out.toList ++ [','].intercalate (members.map memberText)
  | [] => by simp [writeMembersOnto]
  | [(name, value)] => by
      have hvalue := fun out => toList_writeOnto out value
      simp [writeMembersOnto, hvalue, toList_quoteOnto, memberText]
  | (name, value) :: next :: rest => by
      have hvalue := fun out => toList_writeOnto out value
      have hrest := fun out => toList_writeMembersOnto out (next :: rest)
      simp [writeMembersOnto, hvalue, hrest, toList_quoteOnto, memberText,
        List.intercalate_cons_cons]

end

theorem text_null : text .null = ['n', 'u', 'l', 'l'] := rfl

theorem text_string (name : String) : text (.string name) = quoted name := by
  simp [text, compact, writeOnto, toList_quoteOnto]

theorem text_array (items : List Json) :
    text (.array items) = '[' :: ([','].intercalate (items.map text) ++ [']']) := by
  simp [text, compact, writeOnto, toList_writeItemsOnto]

theorem text_object (members : List (String × Json)) :
    text (.object members) =
      '\x7b' :: ([','].intercalate (members.map memberText) ++ ['\x7d']) := by
  simp [text, compact, writeOnto, toList_writeMembersOnto]

theorem neverOpens_text : NeverOpens text ']' := by
  intro value rest rest' heq
  cases value <;> simp [text_null, text_string, text_array, text_object, quoted] at heq

theorem neverOpens_memberText : NeverOpens memberText '\x7d' := by
  intro member rest rest' heq
  simp [memberText, quoted] at heq

theorem selfDelimiting_memberText {member : String × Json}
    (hvalue : SelfDelimiting text member.2) : SelfDelimiting memberText member := by
  intro other rest rest' heq
  simp only [memberText, List.append_assoc] at heq
  obtain ⟨hname, hafter⟩ := selfDelimiting_quoted member.1 heq
  obtain ⟨hmember, hrest⟩ := hvalue (List.tail_eq_of_cons_eq hafter)
  exact ⟨Prod.ext hname hmember, hrest⟩

theorem sizeOf_snd_lt_of_mem {member : String × Json} {members : List (String × Json)}
    (hmem : member ∈ members) : sizeOf member.2 < sizeOf members := by
  have hlt := List.sizeOf_lt_of_mem hmem
  obtain ⟨name, value⟩ := member
  simp only [Prod.mk.sizeOf_spec] at hlt ⊢
  omega

theorem selfDelimiting_text (value : Json) : SelfDelimiting text value := by
  intro other rest rest' heq
  match value with
  | .null =>
      cases other <;> simp_all [text_null, text_string, text_array, text_object, quoted]
  | .string name =>
      cases other with
      | string other =>
          rw [text_string, text_string] at heq
          obtain ⟨rfl, hrest⟩ := selfDelimiting_quoted name heq
          exact ⟨rfl, hrest⟩
      | _ => simp [text_null, text_string, text_array, text_object, quoted] at heq
  | .array items =>
      have hitems : ∀ item ∈ items, SelfDelimiting text item :=
        fun item _ => selfDelimiting_text item
      cases other with
      | array others =>
          rw [text_array, text_array] at heq
          obtain ⟨rfl, hrest⟩ := selfDelimiting_commas neverOpens_text (by decide) hitems
            (List.tail_eq_of_cons_eq heq)
          exact ⟨rfl, hrest⟩
      | _ => simp [text_null, text_string, text_array, text_object, quoted] at heq
  | .object members =>
      have hmembers : ∀ member ∈ members, SelfDelimiting memberText member :=
        fun member hmem =>
          have hlt := sizeOf_snd_lt_of_mem hmem
          selfDelimiting_memberText (selfDelimiting_text member.2)
      cases other with
      | object others =>
          rw [text_object, text_object] at heq
          obtain ⟨rfl, hrest⟩ := selfDelimiting_commas neverOpens_memberText (by decide)
            hmembers (List.tail_eq_of_cons_eq heq)
          exact ⟨rfl, hrest⟩
      | _ => simp [text_null, text_string, text_array, text_object, quoted] at heq
termination_by sizeOf value
decreasing_by
  · decreasing_tactic
  · simp only [object.sizeOf_spec]
    omega

/-- No two values have the same compact text. -/
theorem compact_inj {left right : Json} : left.compact = right.compact ↔ left = right := by
  constructor
  · intro heq
    have htext : left.text ++ [] = right.text ++ [] := by rw [text, text, heq]
    exact (selfDelimiting_text left htext).1
  · exact congrArg compact

end Json

end Dataflow
