import TypedIsl.Proofs.Syntax.Containment
import TypedIsl.Proofs.Syntax.Replacement

/-!
# Definitions among their siblings

A definition that is replaced stands at the top level or in a `local` form, next to other
definitions. In the second case the form is what is replaced.
-/

namespace TypedIsl

/-- A `local` form below the node, and the same form with another definition. -/
def LocalPart (Q : Definition → Definition → Prop) (node : Node) (value other : Value) : Prop :=
  ∃ range before definition after replaced body,
    value = .locals range (before ++ definition :: after) body ∧
      other = .locals range (before ++ replaced :: after) body ∧
      node.Contains (.value value) ∧ Q definition replaced

section

variable {Q : Definition → Definition → Prop} {node : Node}

mutual

theorem Value.Within.localParts {bound : List String} {value other : Value}
    (h : Value.Within (fun _ _ _ => False) (fun _ => Q) bound value other)
    (hnode : node.Contains (.value value)) :
    Value.Within (fun _ => LocalPart Q node) (fun _ _ _ => False) bound value other := by
  match h with
  | .condition hwithin =>
      exact .condition (hwithin.localParts (hnode.part (Part.mem_enclosed (by simp))))
  | .thenArm hwithin =>
      exact .thenArm (hwithin.localParts (hnode.part (Part.mem_enclosed (by simp))))
  | .elseArm hwithin =>
      exact .elseArm (hwithin.localParts (hnode.part (Part.mem_enclosed (by simp))))
  | .clauseCondition hwithin =>
      exact .clauseCondition (hwithin.localParts (hnode.clauses List.mem_append_cons_self).clause.1)
  | .clauseBody hwithin =>
      exact .clauseBody (hwithin.localParts (hnode.clauses List.mem_append_cons_self).clause.2)
  | .otherwise hwithin =>
      exact .otherwise (hwithin.localParts (hnode.part (Part.mem_enclosed (by simp))))
  | .lambda hwithin =>
      exact .lambda (hwithin.localParts (hnode.part (Part.mem_enclosed (by simp))))
  | @Value.Within.localDefinition _ _ _ range before after definition replaced body hwithin =>
      have hdefinition := hnode.local_definition List.mem_append_cons_self
      rcases hwithin.localParts hdefinition with hpart | hwithin
      · exact .part ⟨range, before, definition, after, replaced, body, rfl, rfl, hnode, hpart⟩
      · exact .localDefinition hwithin
  | .localBody hwithin =>
      exact .localBody (hwithin.localParts (hnode.part (Part.mem_enclosed (by simp))))
  | .letBinding hwithin =>
      exact .letBinding (hwithin.localParts (hnode.binding List.mem_append_cons_self).binding_value)
  | .letBody hwithin =>
      exact .letBody (hwithin.localParts (hnode.part (Part.mem_enclosed (by simp))))
  | .callee hwithin =>
      exact .callee (hwithin.localParts (hnode.part (Part.mem_enclosed (by simp))))
  | .arg hwithin =>
      exact .arg (hwithin.localParts (hnode.part (Part.mem_enclosed (by simp))))

theorem Definition.Within.localParts {bound : List String} {definition other : Definition}
    (h : Definition.Within (fun _ _ _ => False) (fun _ => Q) bound definition other)
    (hnode : node.Contains (.definition definition)) :
    Q definition other ∨ Definition.Within (fun _ => LocalPart Q node) (fun _ _ _ => False) bound
      definition other := by
  match h with
  | .part hpart => exact .inl hpart
  | .body hwithin =>
      exact .inr (.body (hwithin.localParts (hnode.part (Part.mem_enclosed (by simp)))))
  | .value hwithin =>
      exact .inr (.value (hwithin.localParts (hnode.part (Part.mem_enclosed (by simp)))))

end

end

end TypedIsl
