import Rpn.Operation.Basic

/-!
# Registries

A registry holds the operations that have a name, in the order in which their
symbols first came. Registering an operation under a symbol that is taken puts
it in the place of the old one, so each symbol names one operation, and that is
the one registered last.
-/

namespace Rpn

/-- Operations by symbol. -/
structure Registry where
  operations : List Operation
  distinct : (operations.map Operation.symbol).Nodup

namespace Registry

/-- The operation that a symbol names. -/
def find? (r : Registry) (symbol : String) : Option Operation :=
  r.operations.find? (·.symbol = symbol)

/-- Whether a symbol names an operation. -/
def contains (r : Registry) (symbol : String) : Bool :=
  (r.find? symbol).isSome

/-- An operation put in the place of the one with its symbol, or at the end if
there is none. -/
def place (op : Operation) : List Operation → List Operation
  | [] => [op]
  | old :: rest => if old.symbol = op.symbol then op :: rest else old :: place op rest

/-- Placing an operation adds its symbol at the end, unless it is there. -/
theorem map_symbol_place (op : Operation) (ops : List Operation) :
    (place op ops).map Operation.symbol =
      if op.symbol ∈ ops.map Operation.symbol then ops.map Operation.symbol
      else ops.map Operation.symbol ++ [op.symbol] := by
  induction ops with
  | nil => simp [place]
  | cons old rest ih =>
    by_cases h : old.symbol = op.symbol
    · simp [place, h]
    · simp only [place, h, if_false, List.map_cons, ih, List.mem_cons, Ne.symm h, false_or]
      split <;> simp

/-- The registry with one more operation. -/
def register (r : Registry) (op : Operation) : Registry where
  operations := place op r.operations
  distinct := by
    rw [map_symbol_place]
    split
    · exact r.distinct
    · rename_i h
      exact List.nodup_append.2 ⟨r.distinct, by simp, by rintro _ ha _ hb; grind⟩

/-- The registry of nothing. -/
def empty : Registry := ⟨[], List.nodup_nil⟩

/-- The registry of operations that are registered one after another. -/
def ofList (ops : List Operation) : Registry :=
  ops.foldl register empty

end Registry

end Rpn
