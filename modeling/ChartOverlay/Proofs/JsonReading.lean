import ChartOverlay.Json.Reader
import ChartOverlay.Proofs.Partial

/-!
# Reading step by step

A reading of a text comes to a value and leaves the rest of the text. The rules here say of a list, of a record and of
what lies in them what it comes to, by what comes of its parts, where nothing is spaced out. `read_of_leaves` is about
a text as a whole.
-/

namespace ChartOverlay.Json

variable {depth : Nat} {t t' t'' rest middle after : Text} {c : CodePoint} {j : Json} {name : Text}
  {previous items : List Json} {before fields : List (Text × Json)}

def Leaves {β : Type} {t : Text} (reading : Reading β t) (x : β) (rest : Text) : Prop :=
  ∃ r : Rest t, reading = .ok (x, r) ∧ r.text = rest

theorem Rest.next?_of_text {r : Rest t} (h : r.text.dropWhile isSpacing = c :: after) :
    ∃ r', r.next? = some (c, r') ∧ r'.text = after := by
  have skipped : r.skip.text = c :: after := h
  unfold next?
  generalize r.skip = s at skipped
  obtain ⟨_, shorter⟩ := s
  cases skipped
  exact ⟨_, rfl, rfl⟩

theorem Rest.next?_of_end {r : Rest t} (h : r.text.dropWhile isSpacing = []) : r.next? = none := by
  have skipped : r.skip.text = [] := h
  unfold next?
  generalize r.skip = s at skipped
  obtain ⟨_, shorter⟩ := s
  cases skipped
  rfl

/-! ### Values without parts -/

theorem leaves_string (spelled : Leaves (spell (t.length + 1) { } t) name rest) :
    Leaves (value depth ('\x22' :: t)) (.string name) rest := by
  obtain ⟨r, spelled, rfl⟩ := spelled
  exact ⟨r.ofTail, by rw [value, spelled]; rfl, rfl⟩

/-- Whether a code point opens neither a text nor a list or a record. -/
def IsPlain (c : CodePoint) : Prop := c ≠ '\x22' ∧ c ≠ '[' ∧ c ≠ '\x7b'
  deriving Decidable

theorem value_of_plain (plain : IsPlain c) (begun : t = c :: middle) : value depth t =
    match word? t with
    | some (j, rest) => if h : rest.length < t.length then .ok (j, ⟨rest, h⟩) else .error (.at t.length)
    | none =>
      match numeral t with
      | some ((negative, digits, decimal), rest) =>
        if h : rest.length < t.length then do return (← numeralValue negative digits decimal, ⟨rest, h⟩)
        else .error (.at t.length)
      | none => .error (.at t.length) := by
  obtain ⟨text, list, record⟩ := plain
  unfold value
  split
  · exact absurd (List.cons.inj begun).1.symm text
  · exact absurd (List.cons.inj begun).1.symm list
  · exact absurd (List.cons.inj begun).1.symm record
  · rfl

theorem leaves_word (plain : IsPlain c) (word : word? (c :: t) = some (j, rest)) (short : rest.length ≤ t.length) :
    Leaves (value depth (c :: t)) j rest := by
  refine ⟨⟨rest, Nat.lt_succ_of_le short⟩, ?_, rfl⟩
  rw [value_of_plain plain rfl]
  simp [word, short]

theorem leaves_numeral {negative : Bool} {digits : Text} {decimal : Option Decimal} (plain : IsPlain c)
    (unnamed : word? (c :: t) = none) (written : numeral (c :: t) = some ((negative, digits, decimal), rest))
    (valued : numeralValue negative digits decimal = .ok j) (short : rest.length ≤ t.length) :
    Leaves (value depth (c :: t)) j rest := by
  refine ⟨⟨rest, Nat.lt_succ_of_le short⟩, ?_, rfl⟩
  rw [value_of_plain plain rfl]
  simp [unnamed, written, short, valued]

/-! ### Lists and records -/

theorem leaves_lastItem (item : Leaves (value depth t) j middle)
    (closed : middle.dropWhile isSpacing = .char ']' :: rest) (listed : (j :: previous).reverse = items) :
    Leaves (elements depth previous t) items rest := by
  obtain ⟨r, read, rfl⟩ := item
  obtain ⟨r', next, rfl⟩ := Rest.next?_of_text closed
  refine ⟨r', ?_, rfl⟩
  rw [elements, read, ok_bind, ← listed]
  simp only [next]
  rfl

theorem leaves_moreItems (item : Leaves (value depth t) j middle)
    (further : middle.dropWhile isSpacing = .char ',' :: after)
    (more : Leaves (elements depth (j :: previous) (after.dropWhile isSpacing)) items rest) :
    Leaves (elements depth previous t) items rest := by
  obtain ⟨r, read, rfl⟩ := item
  obtain ⟨r', next, rfl⟩ := Rest.next?_of_text further
  obtain ⟨r'', later, rfl⟩ := more
  refine ⟨r'.skip.trans r'', ?_, rfl⟩
  rw [elements, read, ok_bind]
  simp only [next]
  have later : elements depth (j :: previous) r'.skip.text = .ok (items, r'') := later
  rw [later]
  rfl

/-- A list or a record is read on from where something stands in it. -/
theorem next?_of_begun (mark : CodePoint) (begun : t.dropWhile isSpacing = c :: middle) :
    ∃ r, (Rest.tail mark t).skip.next? = some (c, r) := by
  have again : (Rest.tail mark t).skip.text.dropWhile isSpacing = c :: middle := by
    show (t.dropWhile isSpacing).dropWhile isSpacing = _
    rw [List.dropWhile_idempotent, begun]
  obtain ⟨r, first, -⟩ := Rest.next?_of_text again
  exact ⟨r, first⟩

theorem leaves_array (begun : t.dropWhile isSpacing = c :: middle) (filled : c ≠ ']')
    (read : Leaves (elements depth [] (t.dropWhile isSpacing)) items rest) :
    Leaves (value (depth + 1) ('[' :: t)) (.array items) rest := by
  -- the rest of the text that is read is that after the bracket and the spacing behind it
  obtain ⟨r, read, rfl⟩ := read
  obtain ⟨r', first⟩ := next?_of_begun '[' begun
  refine ⟨(Rest.tail '[' t).skip.trans r, ?_, rfl⟩
  rw [value]
  simp only [Nat.add_one_ne_zero, if_false, first, Nat.add_sub_cancel]
  split
  · rename_i closed
    cases closed
    exact absurd rfl filled
  · have read : elements depth [] (Rest.tail '[' t).skip.text = .ok (items, r) := read
    rw [read]
    rfl

theorem leaves_object (begun : t.dropWhile isSpacing = c :: middle) (filled : c ≠ '\x7d')
    (read : Leaves (members depth [] (t.dropWhile isSpacing)) fields rest) :
    Leaves (value (depth + 1) ('\x7b' :: t)) (.object fields) rest := by
  obtain ⟨r, read, rfl⟩ := read
  obtain ⟨r', first⟩ := next?_of_begun '\x7b' begun
  refine ⟨(Rest.tail '\x7b' t).skip.trans r, ?_, rfl⟩
  rw [value]
  simp only [Nat.add_one_ne_zero, if_false, first, Nat.add_sub_cancel]
  split
  · rename_i closed
    cases closed
    exact absurd rfl filled
  · have read : members depth [] (Rest.tail '\x7b' t).skip.text = .ok (fields, r) := read
    rw [read]
    rfl

/-- The front of a record is a name and, after a colon, a value. -/
theorem members_of_front (before : List (Text × Json))
    (spelled : Leaves (spell (t.length + 1) { } t) name middle)
    (marked : middle.dropWhile isSpacing = .char ':' :: after)
    (item : Leaves (value depth (after.dropWhile isSpacing)) j rest) :
    ∃ r : Rest ('\x22' :: t), r.text = rest ∧ members depth before ('\x22' :: t) =
      match r.next? with
      | some (.char '\x7d', after) => .ok (setField name j before, after)
      | some (.char ',', after) => do
        let next := after.skip
        let (fields, r) ← members depth (setField name j before) next.text
        return (fields, next.trans r)
      | _ => .error r.trouble := by
  obtain ⟨r, spelled, rfl⟩ := spelled
  have colon : (r.ofTail (c := '\x22')).text.dropWhile isSpacing = .char ':' :: after := marked
  obtain ⟨r', next, rfl⟩ := Rest.next?_of_text colon
  obtain ⟨r'', read, rfl⟩ := item
  refine ⟨r'.skip.trans r'', rfl, ?_⟩
  rw [members, spelled, ok_bind]
  simp only [next]
  have read : value depth r'.skip.text = .ok (j, r'') := read
  rw [read, ok_bind]
  rfl

theorem leaves_last (spelled : Leaves (spell (t.length + 1) { } t) name middle)
    (marked : middle.dropWhile isSpacing = .char ':' :: after)
    (item : Leaves (value depth (after.dropWhile isSpacing)) j t')
    (closed : t'.dropWhile isSpacing = .char '\x7d' :: rest) (put : setField name j before = fields) :
    Leaves (members depth before ('\x22' :: t)) fields rest := by
  obtain ⟨r, rfl, read⟩ := members_of_front before spelled marked item
  obtain ⟨r', next, rfl⟩ := Rest.next?_of_text closed
  refine ⟨r', ?_, rfl⟩
  rw [read]
  simp only [next, put]

theorem leaves_more (spelled : Leaves (spell (t.length + 1) { } t) name middle)
    (marked : middle.dropWhile isSpacing = .char ':' :: after)
    (item : Leaves (value depth (after.dropWhile isSpacing)) j t')
    (further : t'.dropWhile isSpacing = .char ',' :: t'')
    (more : Leaves (members depth (setField name j before) (t''.dropWhile isSpacing)) fields rest) :
    Leaves (members depth before ('\x22' :: t)) fields rest := by
  obtain ⟨r, rfl, read⟩ := members_of_front before spelled marked item
  obtain ⟨r', next, rfl⟩ := Rest.next?_of_text further
  obtain ⟨r'', later, rfl⟩ := more
  refine ⟨r'.skip.trans r'', ?_, rfl⟩
  rw [read]
  simp only [next]
  have later : members depth (setField name j before) r'.skip.text = .ok (fields, r'') := later
  rw [later]
  rfl

theorem read_of_leaves (whole : Leaves (value depth (t.dropWhile isSpacing)) j rest)
    (ended : rest.dropWhile isSpacing = []) : read t depth = .ok j := by
  obtain ⟨r, whole, rfl⟩ := whole
  rw [read, whole]
  simp only [Rest.next?_of_end ended]

/-! ### Bodies -/

/-- A body that is told to be in UTF-8 by its front is read as it stands. -/
theorem textOfBody?_of_front {front rest : String} (long : 4 ≤ front.toList.length)
    (unmarked : front.toList.head? ≠ some '\ufeff')
    (coded : Encoding.ofBytes (String.ofList (front.toList.take 4)).toUTF8.toList = .utf8) :
    Encoding.textOfBody? (front ++ rest) = .ok (Text.ofString (front ++ rest)) := by
  unfold Encoding.textOfBody? Text.ofString
  rw [String.toList_append]
  generalize front.toList = cs at long unmarked coded
  split
  · rename_i marked
    obtain ⟨c, cs, rfl⟩ := List.exists_cons_of_length_pos (show 0 < cs.length by omega)
    rw [List.cons_append] at marked
    exact absurd (congrArg some (List.cons.inj marked).1) unmarked
  · rw [List.take_append_of_le_length long, coded]

theorem readBody_of_leaves {body : String} (coded : Encoding.textOfBody? body = .ok t)
    (whole : Leaves (value depth (t.dropWhile isSpacing)) j rest) (ended : rest.dropWhile isSpacing = []) :
    readBody body depth = .ok j := by
  rw [readBody, coded]
  exact mapError_ok_iff.mpr (read_of_leaves whole ended)

end ChartOverlay.Json
