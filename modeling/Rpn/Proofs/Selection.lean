import Mathlib.Data.List.Induction
import Mathlib.Data.List.Nodup
import Rpn.Proofs.FreeText
import Rpn.Proofs.Registration

/-!
# What a symbol selects

The place of a symbol in a registry and the operation that it is bound to come
from different ends of the row that was registered. An operation that comes
later under a symbol takes the place that the first one was given, so the order
is that of the first operations of each symbol (`isFirstOccurrences_symbols`),
and the bindings are the last ones (`find?_ofList_eq_some_iff`).

A symbol is looked up in three ways: it is performed, a token is classified, or
a program is loaded. Each of them asks the registry first, so a symbol that is
bound selects its operation by all three, be it a number or not
(`Reachable.symbol_selects_last`).
-/

namespace Rpn

/-- Whether keys are the members of a row, each of them once, in the order in
which they come first. -/
structure IsFirstOccurrences (row keys : List String) : Prop where
  nodup : keys.Nodup
  mem_iff : ∀ key, key ∈ keys ↔ key ∈ row
  ordered : keys.Pairwise (row.idxOf · < row.idxOf ·)

namespace IsFirstOccurrences

variable {row keys : List String} {key : String}

theorem nil : IsFirstOccurrences [] [] :=
  ⟨List.nodup_nil, fun _ => Iff.rfl, List.Pairwise.nil⟩

/-- The places of the keys so far stay the same when the row grows. -/
theorem ordered_concat (h : IsFirstOccurrences row keys) (key : String) :
    keys.Pairwise ((row ++ [key]).idxOf · < (row ++ [key]).idxOf ·) := by
  refine h.ordered.imp_of_mem fun {a b} ha hb hlt => ?_
  rw [List.idxOf_append_of_mem ((h.mem_iff a).1 ha),
    List.idxOf_append_of_mem ((h.mem_iff b).1 hb)]
  exact hlt

theorem concat_of_mem (h : IsFirstOccurrences row keys) (hkey : key ∈ row) :
    IsFirstOccurrences (row ++ [key]) keys where
  nodup := h.nodup
  mem_iff other := by
    rw [h.mem_iff, List.mem_append, List.mem_singleton]
    refine ⟨Or.inl, ?_⟩
    rintro (hother | rfl)
    · exact hother
    · exact hkey
  ordered := h.ordered_concat key

theorem concat_of_not_mem (h : IsFirstOccurrences row keys)
    (hkey : key ∉ row) : IsFirstOccurrences (row ++ [key]) (keys ++ [key]) where
  nodup := by
    refine List.nodup_append.2 ⟨h.nodup, List.nodup_singleton key, ?_⟩
    rintro other hother _ hlast rfl
    rw [List.mem_singleton.1 hlast, h.mem_iff] at hother
    exact hkey hother
  mem_iff other := by
    rw [List.mem_append, List.mem_append, h.mem_iff]
  ordered := by
    refine List.pairwise_append.2
      ⟨h.ordered_concat key, List.pairwise_singleton _ key, ?_⟩
    intro other hother _ hlast
    have hmem : other ∈ row := (h.mem_iff other).1 hother
    -- The new key comes right after the row, and so after all of its members.
    rw [List.mem_singleton.1 hlast, List.idxOf_append_of_mem hmem,
      List.idxOf_append_of_notMem hkey]
    exact Nat.lt_of_lt_of_le (List.idxOf_lt_length_of_mem hmem)
      (Nat.le_add_right _ _)

end IsFirstOccurrences

namespace Registry

/-! ## Places come from the first, bindings from the last -/

theorem ofList_concat (ops : List Operation) (op : Operation) :
    ofList (ops ++ [op]) = (ofList ops).register op := by
  rw [ofList, List.foldl_append, List.foldl_cons, List.foldl_nil, ofList]

theorem isFirstOccurrences_symbols (ops : List Operation) :
    IsFirstOccurrences (ops.map Operation.symbol)
      ((ofList ops).operations.map Operation.symbol) := by
  induction ops using List.reverseRecOn with
  | nil => exact .nil
  | append_singleton ops op ih =>
      have hplace := map_symbol_place op (ofList ops).operations
      rw [List.map_append, List.map_singleton, ofList_concat, register, hplace]
      by_cases hmem : op.symbol ∈ ops.map Operation.symbol
      · rw [if_pos ((ih.mem_iff _).2 hmem)]
        exact ih.concat_of_mem hmem
      · rw [if_neg (mt (ih.mem_iff _).1 hmem)]
        exact ih.concat_of_not_mem hmem

theorem find?_ofList_of_isLast {ops : List Operation} {op : Operation}
    (h : IsLast ops op) : (ofList ops).find? op.symbol = some op := by
  obtain ⟨before, after, rfl, hafter⟩ := h
  rw [find?_ofList, List.find?_eq_some_iff_append]
  refine ⟨decide_eq_true rfl, after.reverse, before.reverse, ?_, ?_⟩
  · rw [List.reverse_append, List.reverse_cons, List.append_assoc,
      List.singleton_append]
  · intro later hlater
    simpa using hafter later (List.mem_reverse.1 hlater)

theorem find?_ofList_eq_some_iff {ops : List Operation} {symbol : String}
    {op : Operation} :
    (ofList ops).find? symbol = some op ↔
      op.symbol = symbol ∧ IsLast ops op := by
  refine ⟨fun h => ⟨symbol_of_find? h, isLast_of_find? h⟩, ?_⟩
  rintro ⟨rfl, hlast⟩
  exact find?_ofList_of_isLast hlast

theorem mem_table_iff {r : Registry} {symbol : String} {op : Operation} :
    (symbol, op) ∈ r.table ↔ r.find? symbol = some op := by
  constructor
  · intro h
    obtain ⟨op', hmem, heq⟩ := List.mem_map.1 h
    cases heq
    exact find?_symbol hmem
  · intro h
    refine List.mem_map.2 ⟨op, mem_of_find? h, ?_⟩
    rw [symbol_of_find? h]

theorem map_fst_table (r : Registry) :
    r.table.map Prod.fst = r.operations.map Operation.symbol := by
  rw [table, List.map_map]
  rfl

end Registry

namespace Calculator

variable {settings : Settings} {extra : List Operation} {c : Calculator}

theorem perform_of_unregistered {symbol : Value}
    (h : ∀ op ∈ c.registry.operations, symbol ≠ .text op.symbol) :
    (c.perform symbol).after = c := by
  rw [perform_after]
  cases hfound : symbol.text?.bind c.registry.find? with
  | none => rfl
  | some op =>
      obtain ⟨token, htext, htoken⟩ := Option.bind_eq_some_iff.1 hfound
      have hsymbol : symbol = .text token := by
        cases symbol with
        | text s => exact congrArg Value.text (Option.some.inj htext)
        | _ => cases htext
      rw [← Registry.symbol_of_find? htoken] at hsymbol
      exact absurd hsymbol (h op (Registry.mem_of_find? htoken))

/-- The registry of a calculator holds each symbol of what was registered once,
in the order in which the symbols came first, and binds it to the last operation
of that symbol. Performing a symbol that is bound, classifying it and loading it
all select that operation. Nothing else is selected by performing. -/
theorem Reachable.symbol_selects_last (h : Reachable settings extra c) :
    let ops := Operation.standard ++ extra
    IsFirstOccurrences (ops.map Operation.symbol)
      (c.registry.table.map Prod.fst) ∧
    (∀ symbol op, (symbol, op) ∈ c.registry.table ↔
      op.symbol = symbol ∧ Registry.IsLast ops op) ∧
    (∀ symbol op, (symbol, op) ∈ c.registry.table →
      c.perform (.text symbol) = evaluate { c with stack := op :: c.stack } ∧
      Token.classify c.registry symbol = .ok (some op) ∧
      ∀ mode, c.load (.list [.text symbol]) mode =
        ⟨.ok (), { c with stack := [op] }, []⟩) ∧
    ∀ symbol : Value, (∀ op ∈ ops, symbol ≠ .text op.symbol) →
      (c.perform symbol).after = c := by
  intro ops
  have hregistry : c.registry = .ofList ops := h.keeps.registry_eq
  refine ⟨?_, fun symbol op => ?_, fun symbol op hbound => ?_,
    fun symbol hsymbol => ?_⟩
  · rw [Registry.map_fst_table, hregistry]
    exact Registry.isFirstOccurrences_symbols ops
  · rw [Registry.mem_table_iff, hregistry]
    exact Registry.find?_ofList_eq_some_iff
  · have hfound := Registry.mem_table_iff.1 hbound
    have hclassify : Token.classify c.registry symbol = .ok (some op) := by
      rw [Token.classify, hfound]
    refine ⟨?_, hclassify, load_single_of_ok hclassify⟩
    rw [perform_text, hfound]
    rfl
  · refine perform_of_unregistered fun op hop => hsymbol op ?_
    rw [hregistry] at hop
    exact Registry.mem_of_mem_ofList hop

/-- The sum keeps its place among the standard operators and is the product that
came last. The number is an operator that follows all of them, and the calculator
on which it was looked up holds an operand of the same symbol. -/
theorem overridden_symbol_selects_last :
    IsFirstOccurrences ((Operation.standard ++ overrides).map Operation.symbol)
        ["×", "÷", "+", "−", "√", "^", "sin", "cos", "7.0"] ∧
      Number.isNumber "7.0" = true ∧
      (∃ op, op.symbol = "7.0" ∧
        overridden.perform (.text "7.0") =
          evaluate { overridden with stack := op :: overridden.stack } ∧
        Token.classify overridden.registry "7.0" = .ok (some op) ∧
        (overridden.load (.list [.text "7.0"]) none).after.stack = [op]) ∧
      (overridden.perform (.text "7")).after = overridden := by
  have hreachable : Reachable .standard overrides overridden :=
    (((Reachable.new .silent none).execute _).execute _).execute _
  obtain ⟨hfirst, hbound, hselects, hunbound⟩ := hreachable.symbol_selects_last
  have hkeys : overridden.registry.table.map Prod.fst =
      ["×", "÷", "+", "−", "√", "^", "sin", "cos", "7.0"] := by decide +kernel
  rw [hkeys] at hfirst
  have hlast : Registry.IsLast (Operation.standard ++ overrides)
      (.unary ⟨"7.0", fun only => .ok (-only)⟩) :=
    ⟨Operation.standard ++ [Operation.totalBinary "+" (· - ·)],
      [Operation.totalBinary "+" (· * ·)], rfl, by decide⟩
  obtain ⟨hperform, hclassify, hload⟩ :=
    hselects "7.0" _ ((hbound _ _).2 ⟨rfl, hlast⟩)
  have hfree : ∀ op ∈ Operation.standard ++ overrides, op.symbol ≠ "7" := by
    decide +kernel
  refine ⟨hfirst, by decide +kernel, ⟨_, rfl, hperform, hclassify, ?_⟩,
    hunbound (.text "7") ?_⟩
  · rw [hload none]
  · intro op hop heq
    exact hfree op hop (Value.text.inj heq).symm

end Calculator

end Rpn
