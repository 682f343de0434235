import OperatorGraph.Attribute.Query
import OperatorGraph.Event

/-!
Rules, the steps from which extenders are put together. Applied to a node's attributes, a rule
gives the new attributes, the faults it met and the events worth logging. A rule that meets a
fault leaves alone the attribute that is at fault.
-/

namespace OperatorGraph.Extender

open Attribute (Coercion Fault ListForm Store Value flag)

structure Outcome where
  attributes : Store
  faults : List Fault := []
  events : List Event := []
deriving DecidableEq

namespace Outcome

/-- The attributes that a fallible change gives, or the old ones and its fault. -/
def ofChange (store : Store) : Except Fault Store → Outcome
  | .ok changed => { attributes := changed }
  | .error fault => { attributes := store, faults := [fault] }

def andThen (o : Outcome) (next : Store → Outcome) : Outcome :=
  let n := next o.attributes
  { n with faults := o.faults ++ n.faults, events := o.events ++ n.events }

/-- A coercion, which logs that there is nothing to coerce. -/
def coerce (c : Coercion) (name : String) (store : Store) : Outcome :=
  { ofChange store (store.coerce c name) with
    events := if store.contains name then [] else [.absent name] }

end Outcome

inductive Rule where
  /-- Coerces one attribute. -/
  | coerce (c : Coercion) (name : String)
  /-- Reads a list of integers; an absent attribute or blank text is the empty list. -/
  | mask (name : String)
  /-- Reads the text of a shape, or else a list of integers. -/
  | shape (name : String)
  /-- Writes the canonical name of the element type in `source` to `target`. -/
  | elementType (source target : String) (required : Bool)
  | rename (source target : String)
  | set (name : String) (value : Value)
  /-- Sets a flag if the node's first output slot is unused. -/
  | flagUnusedOutput (name : String)
  /-- Repeats an integer for the two spatial dimensions, after one for batch and channel each. -/
  | perDimension (name : String)
  /-- Writes `source` to `target` with entries for batch and channel before it. -/
  | fullRank (source target : String) (leading : List Int64)
  /-- Writes the pads of all dimensions, each begin before its end, and the spatial dimensions. -/
  | pads (first last target dimensions : String)
deriving DecidableEq

/-- An interval is written with two dots between its bounds. -/
def isInterval : List Char → Bool
  | '.' :: '.' :: _ => true
  | _ :: rest => isInterval rest
  | [] => false

/-- A dimension that is not fixed counts as -1. -/
def dimension? (item : List Char) : Option Int64 :=
  if item = ['?'] ∨ isInterval item then some (-1) else Text.integer? item

/-- The two ends of each dimension, one pair after the other. -/
def interleave : List Int64 → List Int64 → List Int64
  | b :: bs, e :: es => b :: e :: interleave bs es
  | _, _ => []

/-- The numbers of the spatial dimensions, which follow batch and channel. -/
def spatialDimensions (count : Nat) : List Int64 :=
  (List.range count).map fun i => Int64.ofNat (i + 2)

namespace Rule

def applyMask (name : String) (store : Store) : Outcome :=
  match store.get? name with
  | none => { attributes := store.insert name (.list []) }
  | some (.scalar (.text s)) =>
    if Text.trim s.toList = [] then { attributes := store.insert name (.list []) }
    else .coerce (.listOf .integers) name store
  | some _ => .coerce (.listOf .integers) name store

def applyShape (name : String) (store : Store) : Outcome :=
  match store.get? name with
  | some (.scalar (.text s)) =>
    .ofChange store <|
      match (Text.items s.toList).mapM dimension? with
      | some dimensions => .ok (store.insert name (.ints dimensions))
      | none => .error (.unparseable name s .dimension)
  | _ => .coerce (.listOf .integers) name store

def applyPerDimension (name : String) (store : Store) : Outcome :=
  match store.get? name with
  | none | some (.list _) => { attributes := store }
  | some other =>
    .ofChange store <|
      match store.int? name with
      | some n => .ok (store.insert name (.ints [1, 1, n, n]))
      | none => .error (.malformed name .integer other.kind)

def applyFullRank (source target : String) (leading : List Int64) (store : Store) : Store :=
  match store.ints? source with
  | some ns => store.insert target (.ints (leading ++ ns))
  | none => store

def applyPads (first last target dimensions : String) (store : Store) : Outcome :=
  match store.ints? first, store.ints? last with
  | some bs, some es =>
    .ofChange store <|
      if bs.length = es.length then
        .ok ((store.insert target (.ints ([0, 0, 0, 0] ++ interleave bs es))).insert dimensions
          (.ints (spatialDimensions bs.length)))
      else .error (.lengthMismatch first last bs.length es.length)
  | _, _ => { attributes := store }

def apply (node : Node) : Rule → Store → Outcome
  | coerce c name, store => .coerce c name store
  | mask name, store => applyMask name store
  | shape name, store => applyShape name store
  | elementType source target required, store =>
    .ofChange store (store.nameElementType source target required)
  | rename source target, store => { attributes := store.rename source target }
  | set name value, store => { attributes := store.insert name value }
  | flagUnusedOutput name, store =>
    if node.outputs.head? = some "" then { attributes := store.insert name (.int 1) }
    else { attributes := store }
  | perDimension name, store => applyPerDimension name store
  | fullRank source target leading, store =>
    { attributes := applyFullRank source target leading store }
  | pads first last target dimensions, store => applyPads first last target dimensions store

/-- Applies rules one after the other. -/
def applyAll (node : Node) (rules : List Rule) (store : Store) : Outcome :=
  rules.foldl (fun o rule => o.andThen (rule.apply node)) { attributes := store }

end Rule

end OperatorGraph.Extender
