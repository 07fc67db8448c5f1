/-
The parts of derived trees. Each tree at or below derived ones is itself derived, from a run of the same
lexemes; and what it is derived from is read off its kind: a call has its callee and its arguments, a
member access its receiver, the dot and the name, and an identifier is one lexeme.
-/
import LetLint.Proofs.Grammar.Shape

namespace LetLint

/-! ## Runs of lexemes -/

/-- Each of the trees and of what is below them is derived from a run of the lexemes. -/
def DerivesParts (ls : List Lexeme) (ts : List Tree) : Prop :=
  ∀ t ∈ Tree.preorderAll ts, ∃ (Y : Phrase) (ms : List Lexeme), ms <:+: ls ∧ Derives Y ms [t]

namespace DerivesParts

variable {ls ms : List Lexeme} {ts us : List Tree}

theorem nil : DerivesParts ls [] := by simp [DerivesParts, Tree.preorderAll]

theorem mono (h : DerivesParts ls ts) (hl : ls <:+: ms) : DerivesParts ms ts := by
  intro t ht
  obtain ⟨Y, run, hrun, hd⟩ := h t ht
  exact ⟨Y, run, hrun.trans hl, hd⟩

theorem append (h : DerivesParts ls ts) (h' : DerivesParts ms us) : DerivesParts (ls ++ ms) (ts ++ us) := by
  intro t ht
  rw [Tree.preorderAll_append, List.mem_append] at ht
  exact ht.elim (h.mono (List.infix_append' [] ls ms) t) (h'.mono (List.suffix_append ls ms).isInfix t)

/-- A derived tree is derived from all of its lexemes, whatever holds of what is below it. -/
theorem of_derives {X : Phrase} {t : Tree} (hd : Derives X ls [t]) (h : DerivesParts ls t.children) :
    DerivesParts ls [t] := by
  intro u hu
  rw [Tree.preorderAll, Tree.preorder_eq, Tree.preorderAll, List.append_nil, List.mem_cons] at hu
  rcases hu with rfl | hu
  · exact ⟨X, ls, List.infix_rfl, hd⟩
  · exact h u hu

end DerivesParts

theorem Derives.parts {X : Phrase} {ls : List Lexeme} {ts : List Tree} (h : Derives X ls ts) : DerivesParts ls ts :=
  h.compositional .nil (fun _ => .nil) (fun hl => .of_derives (.atom hl) .nil) DerivesParts.append
    fun _ hd ih => .of_derives hd ih

theorem DerivedItem.parts : ∀ items : List DerivedItem,
    DerivesParts (items.flatMap (·.lexemes)) (items.map (·.tree))
  | [] => .nil
  | i :: items => by
    rw [List.flatMap_cons]
    exact i.derives.parts.append (parts items)

/-! ## Trees by their kind -/

namespace Derives

variable {X : Phrase} {ls : List Lexeme} {t : Tree}

/-- An identifier is derived from one lexeme. -/
theorem exists_identifier (h : Derives X ls [t]) (hk : t.kind = .identifier) :
    ∃ l name, ls = [l] ∧ l.token = .identifier name ∧ t = .leaf (.identifier name) (cover [l]) := by
  generalize hts : [t] = ts at h
  induction h generalizing t with
  | name hl =>
    cases hts
    exact ⟨_, _, rfl, hl, rfl⟩
  | atom hl =>
    cases hts
    obtain ⟨name, hname, ht⟩ := Lexeme.identifier_of_leaf? (Option.map_eq_some_iff.2 ⟨_, hl, rfl⟩) hk
    exact ⟨_, name, rfl, hname, ht⟩
  | next _ _ hm => exact absurd (List.cons.inj hts).2.symm hm.trees_ne_nil
  | noItems | noStatements => cases hts
  | statements _ hm ih =>
    obtain ⟨rfl, rfl⟩ := List.cons.inj hts
    rw [hm.eq_nil_of_statements, List.append_nil]
    exact ih hk rfl
  | last _ ih | items _ ih | untyped _ ih | noLambda _ ih | bodyBlock _ ih | bodyValue _ ih | operand _ ih
  | stronger _ ih | unsigned _ ih | callee _ ih | blockStatement _ ih | itemStatement _ ih => exact ih hk hts
  | _ => cases hts; cases hk

/-- A call or a member access is derived as one, whatever it was read as. -/
theorem as_call (h : Derives X ls [t]) (hk : t.kind = .invocation ∨ t.kind = .memberAccess) :
    Derives .call ls [t] := by
  generalize hts : [t] = ts at h
  induction h generalizing t with
  | invocation hf ha =>
    cases hts
    exact .invocation hf ha
  | access hr hd hn =>
    cases hts
    exact .access hr hd hn
  | atom hl =>
    cases hts
    rename_i a
    cases a <;> simp [Atom.kind] at hk
  | next _ _ hm => exact absurd (List.cons.inj hts).2.symm hm.trees_ne_nil
  | noItems | noStatements => cases hts
  | statements _ hm ih =>
    obtain ⟨rfl, rfl⟩ := List.cons.inj hts
    rw [hm.eq_nil_of_statements, List.append_nil]
    exact ih hk rfl
  | last _ ih | items _ ih | untyped _ ih | noLambda _ ih | bodyBlock _ ih | bodyValue _ ih | operand _ ih
  | stronger _ ih | unsigned _ ih | callee _ ih | blockStatement _ ih | itemStatement _ ih => exact ih hk hts
  | _ => cases hts; rcases hk with hk | hk <;> cases hk

theorem exists_invocation (h : Derives X ls [t]) (hk : t.kind = .invocation) :
    ∃ fs ms f a, ls = fs ++ ms ∧ t.children = [f, a] ∧ Derives .call fs [f] ∧ Derives .arguments ms [a] := by
  cases h.as_call (.inl hk) with
  | invocation hf ha => exact ⟨_, _, _, _, rfl, rfl, hf, ha⟩
  | access => cases hk
  | callee h => cases h with
    | atom => rename_i a _; cases a <;> cases hk
    | group => cases hk

theorem exists_memberAccess (h : Derives X ls [t]) (hk : t.kind = .memberAccess) :
    ∃ rs r d l name, ls = rs ++ [d, l] ∧ t.children = [r, .leaf (.identifier name) (cover [l])] ∧
      Derives .call rs [r] ∧ d.token = .punct .dot ∧ l.token = .identifier name := by
  cases h.as_call (.inr hk) with
  | access hr hd hn =>
    cases hn with
    | name hl => exact ⟨_, _, _, _, _, rfl, rfl, hr, hd, hl⟩
  | invocation => cases hk
  | callee h => cases h with
    | atom => rename_i a _; cases a <;> cases hk
    | group => cases hk

end Derives

end LetLint
