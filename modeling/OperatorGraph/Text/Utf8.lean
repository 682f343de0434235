/-!
Text as UTF-8 bytes.
-/

namespace OperatorGraph.Text

def utf8 (s : String) : List UInt8 := s.toUTF8.data.toList

def ofUtf8? (bytes : List UInt8) : Option String := String.fromUTF8? bytes.toByteArray

end OperatorGraph.Text
