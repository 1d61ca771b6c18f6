import ProtoScala.Library.Effects
import ProtoScala.Runtime.Values

/-!
# Calls of a program's functions

A primitive that calls back into the program: the call may change the state of the
program, answer any value, or throw. `typeName` is the class name that the texts of the
runtime's own errors give to a value.
-/

namespace ProtoScala.Runtime.Calls

open ProtoScala.Library.Effects
open ProtoScala.Runtime.Values

set_option autoImplicit false

/-- What a primitive throws: an error of its own, or what the program threw. -/
inductive Thrown where
  | scalaError (cls text : String)
  | program (exception : Value)

/-- A program's code, over the state of the program. -/
abbrev Code (σ α : Type) : Type := Eff σ Thrown α

abbrev Function (σ : Type) : Type := Value → Code σ Value

variable {σ : Type} (typeName : Value → String)

def wrongType {α : Type} (method expected : String) (v : Value) : Code σ α :=
  Eff.raise (.scalaError "ClassCastException"
    (method ++ " expects " ++ expected ++ ", got " ++ typeName v))

def truth (method : String) : Value → Code σ Bool
  | .bool b => pure b
  | v => wrongType typeName method "a function returning Boolean" v

/-- The objects that have a class of the program. -/
def isScalaInstance : Value → Bool
  | .vector _ _ | .range _ | .map _ _ _ | .set _ _ | .product _ _ _ _ => true
  | _ => false

/-- `addFlat`: what a function of `flatMap` answered, with the sends of `isEmpty` and `get`. -/
def addFlat (isEmpty get : Function σ) (method : String) (r : Value) : Code σ (List Value) :=
  match seqViewOf r with
  | some view => pure ((List.range view.size).map view.elemAt)
  | none =>
      if isScalaInstance r then do
        match ← isEmpty r with
        | .bool true => return []
        | _ => return [← get r]
      else wrongType typeName method "a function returning a collection or an Option" r

end ProtoScala.Runtime.Calls
