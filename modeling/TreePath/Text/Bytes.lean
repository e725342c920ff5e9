set_option autoImplicit false

/-!
Positions in a text are counted in bytes of its UTF-8 form. A text is cut at such a
position by keeping the characters that lie wholly before it.
-/

namespace TreePath.Text

/-- The number of bytes that the characters take up in UTF-8. -/
def byteLength : List Char → Nat
  | [] => 0
  | character :: rest => character.utf8Size + byteLength rest

/-- The characters that lie wholly within the first `size` bytes. -/
def takeBytes : Nat → List Char → List Char
  | _, [] => []
  | size, character :: rest =>
      if character.utf8Size ≤ size then
        character :: takeBytes (size - character.utf8Size) rest
      else
        []

def upTo (text : String) (stop : Nat) : String :=
  String.ofList (takeBytes stop text.toList)

@[simp] theorem byteLength_nil : byteLength [] = 0 := rfl

@[simp] theorem byteLength_cons (character : Char) (rest : List Char) :
    byteLength (character :: rest) = character.utf8Size + byteLength rest := rfl

@[simp] theorem byteLength_append (before after : List Char) :
    byteLength (before ++ after) = byteLength before + byteLength after := by
  induction before with
  | nil => simp
  | cons character rest inductionHypothesis => simp [inductionHypothesis, Nat.add_assoc]

@[simp] theorem takeBytes_zero (characters : List Char) : takeBytes 0 characters = [] := by
  cases characters with
  | nil => rfl
  | cons character rest =>
      have positive := character.utf8Size_pos
      simp [takeBytes, Nat.not_le.mpr positive]

/-- Cutting at the length of a beginning gives that beginning back. -/
theorem takeBytes_append (before after : List Char) :
    takeBytes (byteLength before) (before ++ after) = before := by
  induction before with
  | nil => simp
  | cons character rest inductionHypothesis =>
      simp [takeBytes, inductionHypothesis]

theorem upTo_append (before after : String) :
    upTo (before ++ after) (byteLength before.toList) = before := by
  rw [upTo, String.toList_append, takeBytes_append, String.ofList_toList]

end TreePath.Text
