import OperatorGraph.Json.Graph

/-!
Graphs kept in files of JSON text. What a file holds is a value here, and none if there is no
such file.
-/

namespace OperatorGraph

inductive FileFault where
  | notFound
  | notUtf8
  | json (fault : Json.Fault)
deriving DecidableEq

namespace Graph

def load (content : Option (List UInt8)) : Except FileFault Graph :=
  match content with
  | none => .error .notFound
  | some bytes =>
    match Text.ofUtf8? bytes with
    | none => .error .notUtf8
    | some s => (readJson s).mapError .json

/-- The content of the file that a graph is saved to, in a directory that has to be there. -/
def save (g : Graph) (directoryExists : Bool) : Except FileFault (List UInt8) :=
  if directoryExists then .ok (Text.utf8 g.writeJson) else .error .notFound

end Graph

end OperatorGraph
