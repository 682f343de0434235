import OperatorGraph.Text.Blank

/-!
Lists written as text: items between commas, each with blanks around it. Blank text is the empty
list, while an item that is empty among others is kept.
-/

namespace OperatorGraph.Text

/-- The pieces between commas; there is one more of them than commas. -/
def pieces : List Char → List (List Char)
  | [] => [[]]
  | c :: rest =>
    if c = ',' then [] :: pieces rest
    else
      match pieces rest with
      | [] => [[c]]
      | piece :: others => (c :: piece) :: others

def items (s : List Char) : List (List Char) :=
  if trim s = [] then [] else (pieces (trim s)).map trim

end OperatorGraph.Text
