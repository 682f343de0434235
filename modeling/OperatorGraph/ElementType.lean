import OperatorGraph.Text.Blank

/-!
Element types and their names. Several spellings are read, in any case of the ASCII letters; one
is written. Types are ordered as they are listed here.
-/

namespace OperatorGraph

inductive ElementType where
  | f64
  | f32
  | bf16
  | f16
  | u64
  | i64
  | u32
  | i32
  | u16
  | i16
  | u8
  | i8
  | boolean
deriving DecidableEq

namespace ElementType

def all : List ElementType :=
  [f64, f32, bf16, f16, u64, i64, u32, i32, u16, i16, u8, i8, boolean]

/-- The written name. -/
def name : ElementType → String
  | f64 => "f64"
  | f32 => "f32"
  | bf16 => "bf16"
  | f16 => "f16"
  | u64 => "u64"
  | i64 => "i64"
  | u32 => "u32"
  | i32 => "i32"
  | u16 => "u16"
  | i16 => "i16"
  | u8 => "u8"
  | i8 => "i8"
  | boolean => "boolean"

def otherNames : ElementType → List String
  | f64 => ["float64", "fp64"]
  | f32 => ["float32", "fp32"]
  | bf16 => ["bfloat16"]
  | f16 => ["float16", "fp16"]
  | u64 => ["uint64"]
  | i64 => ["int64"]
  | u32 => ["uint32"]
  | i32 => ["int32"]
  | u16 => ["uint16"]
  | i16 => ["int16"]
  | u8 => ["uint8"]
  | i8 => ["int8"]
  | boolean => ["bool"]

def spellings (t : ElementType) : List String := t.name :: t.otherNames

/-- The type with a spelling that differs at most in the case of ASCII letters. -/
def ofSpelling? (s : List Char) : Option ElementType :=
  all.find? fun t => t.spellings.any fun spelling => spelling.toList = s.map Char.toLower

/-- As `ofSpelling?`, with blanks around the name. -/
def ofName? (name : String) : Option ElementType := ofSpelling? (Text.trim name.toList)

def rank (t : ElementType) : Nat := all.idxOf t

instance : LT ElementType := ⟨fun a b => a.rank < b.rank⟩

instance (a b : ElementType) : Decidable (a < b) := inferInstanceAs (Decidable (a.rank < b.rank))

end ElementType

end OperatorGraph
