import Switchboard.Rpc.Arguments

/-!
# Ready-made handlers

A small calculator, texts, and handlers that fail in a given way.
-/

namespace Switchboard

inductive StockHandler where
  /-- The sum of two integers. -/
  | add
  /-- The quotient of two integers, cut toward zero. -/
  | divide
  /-- Texts joined by a separator. -/
  | join
  /-- An optional integer and one, modulo its width. -/
  | next
  /-- How many arguments are left behind `skip` empty ones. -/
  | remaining (skip : Nat)
  | text (t : String)
  /-- Fails; the causes are given innermost first. -/
  | fail (layers : List String)
  | panic
  /-- The one argument. -/
  | echo (t : Ty)

namespace StockHandler

open Handling

def int32? (n : Int) : Option Int32 :=
  if Int32.minValue.toInt ≤ n ∧ n ≤ Int32.maxValue.toInt then some (Int32.ofInt n) else none

def orFail {α : Type} (cause : String) : Option α → Handling α
  | some a => pure a
  | none => Handling.fail [cause]

def skipUnits : Nat → Handling Unit
  | 0 => pure ()
  | n + 1 => do
    argument .unit
    skipUnits n

def handler : StockHandler → Handler
  | add => Handling.handler .i32 do
    let a ← argument .i32
    let b ← argument .i32
    orFail "overflow" (int32? (a.toInt + b.toInt))
  | divide => Handling.handler .i32 do
    let a ← argument .i32
    let b ← argument .i32
    orFail "division by zero" (if b = 0 then none else int32? (a.toInt.tdiv b.toInt))
  | join => Handling.handler .string do
    let texts ← argument (.vec .string)
    let separator ← argument .string
    return separator.intercalate texts
  | next => Handling.handler (.opt .i64) do
    let n ← argument (.opt .i64)
    return n.map (· + 1)
  | remaining skip => Handling.handler .u32 do
    skipUnits skip
    return UInt32.ofNat (← Handling.remaining)
  | text t => Handling.handler .string (pure t)
  | fail layers => Handling.handler .unit (Handling.fail layers.reverse)
  | panic => Handling.handler .unit (throw .panicked)
  | echo t => Handling.handler t (argument t)

end StockHandler

end Switchboard
