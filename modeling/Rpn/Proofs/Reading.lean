import Mathlib.Logic.ExistsUnique
import Rpn.Proofs.Descent

/-!
# A stack reads as one expression

Spelling an expression and evaluating it are inverse to each other, in the
sense that is left when a stack may hold more than the expression. One way
round, `scan_spell` already says that a spelled expression comes to its value
on whatever lies beneath, faults included. The other way round, a value does
not come from nowhere: `exists_spell` follows the descent and puts a tree
together from the trees of the operands, so what the evaluation used up is the
spelling of an expression.

There is only one such expression. A spelling begins with its operator, and the
operator says how many spellings follow, so of two expressions neither spelling
can be the beginning of the other (`spell_append_inj`). That is stronger than
injectivity and is what the induction needs: the nearer operand is followed by
the deeper one, and only at the outermost level by what lies beneath.
-/

namespace Rpn.Expression

/-- On whatever lies beneath, a spelled expression comes to its value and
leaves what lay beneath; if the expression has a fault, so has the stack. -/
theorem evaluate_spell (e : Expression) (beneath : Stack) :
    Stack.evaluate (e.spell ++ beneath) =
      e.value.map fun value => some (value, beneath) := by
  rw [Stack.evaluate, scan_spell]
  cases e.value <;> rfl

theorem spell_append_inj {e e' : Expression} {rest rest' : Stack}
    (h : e.spell ++ rest = e'.spell ++ rest') : e = e' ∧ rest = rest' := by
  induction e generalizing e' rest rest' with
  | literal value =>
      cases e' with
      | literal value' =>
          injection h with hop hrest
          injection hop with hvalue
          exact ⟨by rw [hvalue], hrest⟩
      | unary _ _ => injection h with hop; cases hop
      | binary _ _ _ => injection h with hop; cases hop
  | unary op only ih =>
      cases e' with
      | literal _ => injection h with hop; cases hop
      | unary op' only' =>
          injection h with hop hrest
          injection hop with hop
          obtain ⟨honly, hrest⟩ := ih hrest
          exact ⟨by rw [hop, honly], hrest⟩
      | binary _ _ _ => injection h with hop; cases hop
  | binary op nearer deeper ihn ihd =>
      cases e' with
      | literal _ => injection h with hop; cases hop
      | unary _ _ => injection h with hop; cases hop
      | binary op' nearer' deeper' =>
          injection h with hop hrest
          injection hop with hop
          simp only [List.append_eq, List.append_assoc] at hrest
          obtain ⟨hnearer, hrest⟩ := ihn hrest
          obtain ⟨hdeeper, hrest⟩ := ihd hrest
          exact ⟨by rw [hop, hnearer, hdeeper], hrest⟩

/-- What a descent used up is the spelling of an expression, and its value is
the one that was found. -/
theorem exists_spell {stack rest : Stack} {value : Float}
    (h : stack.descend = .ok (some (value, rest))) :
    ∃ e : Expression, stack = e.spell ++ rest ∧ e.value = .ok value := by
  match stack with
  | [] =>
      rw [Stack.descend_nil] at h
      cases h
  | .operand x :: left =>
      rw [Stack.descend_operand] at h
      cases h
      exact ⟨.literal value, rfl, rfl⟩
  | .foreign object :: left =>
      rw [Stack.descend_foreign] at h
      cases h
  | .unary op :: left =>
      obtain ⟨x, hleft, happly⟩ := Stack.descend_unary_eq_some h
      obtain ⟨only, honly, hx⟩ := exists_spell hleft
      refine ⟨.unary op only, ?_, ?_⟩
      · rw [honly, spell, List.cons_append]
      · rw [Expression.value, hx]
        exact happly
  | .binary op :: left =>
      obtain ⟨x, middle, y, hleft, hmiddle, happly⟩ :=
        Stack.descend_binary_eq_some h
      have hlt := Stack.descend_shorter hleft
      obtain ⟨nearer, hnearer, hx⟩ := exists_spell hleft
      obtain ⟨deeper, hdeeper, hy⟩ := exists_spell hmiddle
      refine ⟨.binary op nearer deeper, ?_, ?_⟩
      · rw [hnearer, hdeeper, spell, List.cons_append, List.append_assoc]
      · rw [Expression.value, hx]
        simp only []
        rw [hy]
        exact happly
termination_by stack.length
decreasing_by
  all_goals
    simp only [List.length_cons]
    omega

/-- Evaluation inverts spelling. A spelled expression evaluates to its value,
or to its fault, on whatever lies beneath; and a stack has a value with some
remainder exactly if it is the spelling of one and only one expression on that
remainder, whose value it is. -/
theorem evaluate_inverts_spell :
    (∀ (e : Expression) (beneath : Stack),
      Stack.evaluate (e.spell ++ beneath) =
        e.value.map fun value => some (value, beneath)) ∧
    ∀ (stack rest : Stack) (value : Float),
      stack.evaluate = .ok (some (value, rest)) ↔
        (∃! e : Expression, stack = e.spell ++ rest) ∧
          ∀ e : Expression, stack = e.spell ++ rest → e.value = .ok value := by
  refine ⟨evaluate_spell, fun stack rest value => ⟨fun h => ?_, ?_⟩⟩
  · rw [Stack.evaluate_eq_descend] at h
    obtain ⟨e, he, hvalue⟩ := exists_spell h
    have hunique : ∀ e' : Expression, stack = e'.spell ++ rest → e' = e :=
      fun e' he' => (spell_append_inj (he'.symm.trans he)).1
    refine ⟨⟨e, he, hunique⟩, fun e' he' => ?_⟩
    rw [hunique e' he']
    exact hvalue
  · intro h
    obtain ⟨⟨e, he, _⟩, hvalue⟩ := h
    rw [he, evaluate_spell, hvalue e he]
    rfl

end Rpn.Expression
