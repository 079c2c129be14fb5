import Rpn.Proofs.Session

/-!
# Which operation a symbol names

Operations are registered one after another, and a symbol that comes again takes
a new operation. Two accounts of this stand beside the registry. A `Table`
assigns operations to keys, which are kept apart from what they are bound to; it
holds the operations of the registry, each under its own symbol
(`table_ofList`). And a symbol names the last of the operations with that symbol
(`find?_ofList`), so one that was replaced is out of reach for good.

A stack gets its operations by three ways: a value becomes an operand, a symbol
is looked up, and the tokens of a program are classified. None of them brings in
anything but operands and what the registry binds (`Keeps`), whatever commands
there were and whether they failed or not. `Reachable.stack_is_bound` puts the
two parts together.
-/

namespace Rpn

/-- Bindings of keys, in the order in which the keys came. -/
abbrev Table := List (String × Operation)

namespace Table

/-- Binds a key, in its place if it is there and otherwise at the end. -/
def assign (key : String) (op : Operation) : Table → Table
  | [] => [(key, op)]
  | (old, bound) :: rest =>
    if old = key then (old, op) :: rest
    else (old, bound) :: assign key op rest

/-- The bindings of operations that are assigned to their symbols one after
another. -/
def ofList (ops : List Operation) : Table :=
  ops.foldl (fun table op => table.assign op.symbol op) []

end Table

namespace Registry

/-- The bindings of a registry. -/
def table (r : Registry) : Table :=
  r.operations.map fun op => (op.symbol, op)

theorem map_place (op : Operation) (ops : List Operation) :
    (place op ops).map (fun op => (op.symbol, op)) =
      Table.assign op.symbol op (ops.map fun op => (op.symbol, op)) := by
  induction ops with
  | nil => rfl
  | cons old rest ih =>
      simp only [place, List.map_cons, Table.assign]
      split
      · next h => rw [List.map_cons, h]
      · rw [List.map_cons, ih]

theorem table_register (r : Registry) (op : Operation) :
    (r.register op).table = r.table.assign op.symbol op :=
  map_place op r.operations

theorem table_ofList (ops : List Operation) :
    (ofList ops).table = Table.ofList ops := by
  have hfold : ∀ r : Registry, (ops.foldl register r).table =
      ops.foldl (fun table op => table.assign op.symbol op) r.table := by
    induction ops with
    | nil => exact fun r => rfl
    | cons op rest ih =>
        intro r
        rw [List.foldl_cons, List.foldl_cons, ih, table_register]
  exact hfold empty

theorem symbol_of_mem_table {r : Registry} {key : String} {op : Operation}
    (h : (key, op) ∈ r.table) : op.symbol = key := by
  obtain ⟨op', _, heq⟩ := List.mem_map.1 h
  cases heq
  rfl

theorem lookup_table (r : Registry) (key : String) :
    r.table.lookup key = r.find? key := by
  rw [table, find?]
  induction r.operations with
  | nil => rfl
  | cons op rest ih =>
      rw [List.map_cons, List.lookup_cons, List.find?_cons, ih]
      by_cases h : op.symbol = key
      · simp [h]
      · rw [beq_false_of_ne (Ne.symm h), decide_eq_false h]

/-! ## The last operation of a name -/

theorem find?_place (op : Operation) (ops : List Operation) (symbol : String) :
    (place op ops).find? (·.symbol = symbol) =
      if op.symbol = symbol then some op
      else ops.find? (·.symbol = symbol) := by
  induction ops with
  | nil => by_cases h : op.symbol = symbol <;> simp [place, h]
  | cons old rest ih =>
      simp only [place]
      by_cases hold : old.symbol = op.symbol
      · rw [if_pos hold]
        by_cases h : op.symbol = symbol <;> simp [hold, h]
      · rw [if_neg hold, List.find?_cons, List.find?_cons, ih]
        by_cases h : op.symbol = symbol
        · have hne : old.symbol ≠ symbol := by
            rw [← h]
            exact hold
          simp [h, hne]
        · simp [h]

theorem find?_register (r : Registry) (op : Operation) (symbol : String) :
    (r.register op).find? symbol =
      if op.symbol = symbol then some op else r.find? symbol :=
  find?_place op r.operations symbol

theorem find?_ofList (ops : List Operation) (symbol : String) :
    (ofList ops).find? symbol = ops.reverse.find? (·.symbol = symbol) := by
  rw [ofList, ← List.foldr_reverse]
  induction ops.reverse with
  | nil => rfl
  | cons op rest ih =>
      rw [List.foldr_cons, find?_register, ih, List.find?_cons]
      by_cases h : op.symbol = symbol
      · simp [h]
      · simp [h]

/-- A registered operation is the one that its symbol names. -/
theorem find?_symbol {r : Registry} {op : Operation} (h : op ∈ r.operations) :
    r.find? op.symbol = some op := by
  have hdistinct := r.distinct
  rw [find?]
  generalize r.operations = ops at h hdistinct
  induction ops with
  | nil => cases h
  | cons first rest ih =>
      rw [List.map_cons, List.nodup_cons] at hdistinct
      rcases List.mem_cons.1 h with rfl | hrest
      · exact List.find?_cons_of_pos (decide_eq_true rfl)
      · have hne : first.symbol ≠ op.symbol := by
          intro heq
          refine hdistinct.1 ?_
          rw [heq]
          exact List.mem_map_of_mem hrest
        rw [List.find?_cons_of_neg (by simpa using hne)]
        exact ih hrest hdistinct.2

/-- An operation that no later one of a row replaces. -/
def IsLast (ops : List Operation) (op : Operation) : Prop :=
  ∃ before after, ops = before ++ op :: after ∧
    ∀ later ∈ after, later.symbol ≠ op.symbol

theorem isLast_of_find? {ops : List Operation} {symbol : String}
    {op : Operation} (h : (ofList ops).find? symbol = some op) :
    IsLast ops op := by
  have hsymbol := symbol_of_find? h
  rw [find?_ofList, List.find?_eq_some_iff_append] at h
  obtain ⟨_, after, before, hreverse, hafter⟩ := h
  refine ⟨before.reverse, after.reverse, ?_, ?_⟩
  · rw [← List.reverse_reverse ops, hreverse, List.reverse_append,
      List.reverse_cons, List.append_assoc, List.singleton_append]
  · intro later hlater
    rw [hsymbol]
    simpa using hafter later (List.mem_reverse.1 hlater)

theorem mem_of_mem_ofList {ops : List Operation} {op : Operation}
    (h : op ∈ (ofList ops).operations) : op ∈ ops := by
  obtain ⟨before, after, rfl, _⟩ := isLast_of_find? (find?_symbol h)
  simp

end Registry

namespace Calculator

variable {settings : Settings} {extra : List Operation} {c : Calculator}

/-- However a calculator was used, each operation on its stack is an operand or
the very one that its symbol names, and that is the last one registered under
it. The registry holds every operation under the operation's own symbol. So a
symbol of the program is a key of the registry or the number of a double. -/
theorem Reachable.stack_is_bound (h : Reachable settings extra c) :
    (∀ op ∈ c.stack, (∃ x, op = .operand x) ∨
      (c.registry.find? op.symbol = some op ∧
        Registry.IsLast (Operation.standard ++ extra) op)) ∧
    c.registry.table = Table.ofList (Operation.standard ++ extra) ∧
    (∀ key, c.registry.find? key = c.registry.table.lookup key) ∧
    (∀ key op, (key, op) ∈ c.registry.table → op.symbol = key) ∧
    ∀ symbol ∈ c.program,
      (∃ op, (symbol, op) ∈ c.registry.table) ∨ ∃ x, symbol = numberText x := by
  have hkeeps := h.keeps
  have hbound : ∀ op ∈ c.stack, (∃ x, op = .operand x) ∨
      c.registry.find? op.symbol = some op := by
    rw [hkeeps.registry_eq]
    exact hkeeps.holds
  refine ⟨?_, ?_, ?_, ?_, ?_⟩
  · intro op hop
    rcases hbound op hop with hoperand | hfound
    · exact Or.inl hoperand
    · refine Or.inr ⟨hfound, ?_⟩
      rw [hkeeps.registry_eq] at hfound
      exact Registry.isLast_of_find? hfound
  · rw [hkeeps.registry_eq, Registry.table_ofList]
  · intro key
    rw [Registry.lookup_table]
  · intro key op hmem
    exact Registry.symbol_of_mem_table hmem
  · intro symbol hsymbol
    rw [program, Program.ofStack] at hsymbol
    obtain ⟨op, hop, rfl⟩ := List.mem_map.1 hsymbol
    rcases hbound op (List.mem_reverse.1 hop) with ⟨x, rfl⟩ | hfound
    · exact Or.inr ⟨x, rfl⟩
    · exact Or.inl ⟨op, List.mem_map.2
        ⟨op, Registry.mem_of_find? hfound, rfl⟩⟩

/-- A sum that is replaced twice, and an operator in the place of a number. -/
def overrides : List Operation :=
  [Operation.totalBinary "+" (· - ·), .unary ⟨"7.0", fun only => .ok (-only)⟩,
    Operation.totalBinary "+" (· * ·)]

/-- `7.0 3 +`, loaded, with an operand of the first one's name on top and after
a push that failed. -/
def overridden : Calculator :=
  let c := Calculator.new .standard overrides .silent none
  let c := (c.execute (.load (.list [.text "7.0", .text "3", .text "+"])
    none)).after
  let c := (c.execute (.push (.text "seven"))).after
  (c.execute (.push (.whole 7))).after

theorem overridden_stack_is_bound :
    overridden.program = ["7.0", "3.0", "+", "7.0"] ∧
      ∀ op ∈ overridden.stack, (∃ x, op = .operand x) ∨
        (overridden.registry.find? op.symbol = some op ∧
          Registry.IsLast (Operation.standard ++ overrides) op) := by
  have hreachable : Reachable .standard overrides overridden :=
    (((Reachable.new .silent none).execute _).execute _).execute _
  exact ⟨by decide +kernel, hreachable.stack_is_bound.1⟩

end Calculator

end Rpn
