/-
Reading with two builders at once. A simulation relates the states of two builders, together with
the pairs of nodes that both have made and not yet put under another node, in the order in which
they were made. It asks that alike lexemes are ahead, and that taking a token, making a leaf and
closing a node over the last of the pairs keep the relation. Then every production does: from
related states the two readings both stop with a fault of one cause, or both make a node, and these
two are the next pair. So nothing but the tokens decides how a text is read, and the parts of a node
are always the nodes made last.
-/
import LetLint.Proofs.Parse.Alike
import LetLint.Proofs.Parse.Reading

namespace LetLint

open Parse

/-- Two builders in step. The worlds are what stays fixed while no fault is met. -/
structure Simulation (ω : Type) {ν μ : Type} (σ τ : Type) [Builder σ ν] [Builder τ μ] where
  /-- In a world, the states and the pairs of pending nodes belong together. -/
  rel : ω → List (ν × μ) → σ → τ → Prop
  /-- The offsets belong together as starts of nodes. -/
  starts : Nat → Nat → Prop
  alike : ∀ {w ps s t}, rel w ps s t → AllAlike (Builder.stream s).ahead (Builder.stream t).ahead
  place : ∀ {w ps s t}, rel w ps s t →
    starts (Builder.stream s).place.offset (Builder.stream t).place.offset
  startOf : ∀ {w ps s t n m}, rel w ps s t → (n, m) ∈ ps → starts (Builder.startOf n s) (Builder.startOf m t)
  advance : ∀ {w ps s t}, rel w ps s t → rel w ps (Builder.advance s) (Builder.advance t)
  leaf : ∀ {w ps s t x y a b}, rel w ps s t → (Builder.stream s).current? = some x →
    (Builder.stream t).current? = some y → x.atom? = some a → y.atom? = some b →
    ∃ n s' m t', Parse.leaf a s = .ok n s' ∧ Parse.leaf b t = .ok m t' ∧ rel w (ps ++ [(n, m)]) s' t'
  node : ∀ {w ps qs s t i j} (kind : Kind), rel w (ps ++ qs) s t → starts i j →
    ∃ n s' m t', Parse.close kind i (qs.map Prod.fst) s = .ok n s' ∧
      Parse.close kind j (qs.map Prod.snd) t = .ok m t' ∧ rel w (ps ++ [(n, m)]) s' t'
  /-- Pending nodes can be given up. -/
  forget : ∀ {w ps s t}, rel w ps s t → ∃ w', rel w' [] s t

namespace Simulation

variable {ω ν μ σ τ α β γ δ : Type} [Builder σ ν] [Builder τ μ] {sim : Simulation ω σ τ}
variable {pre : List (ν × μ)} {mid : List (ν × μ) → α → β → Prop} {post : List (ν × μ) → γ → δ → Prop}

/-! ## Readings in step -/

/-- Both readings succeeded and made `post` in a world, or both stopped at the next token, for one cause. -/
def Outcome (sim : Simulation ω σ τ) (w : ω) (ps : List (ν × μ)) (post : List (ν × μ) → α → β → Prop)
    (x : EStateM.Result ParseFault σ α) (y : EStateM.Result ParseFault τ β) : Prop :=
  (∃ a s' b t' qs, x = .ok a s' ∧ y = .ok b t' ∧ post qs a b ∧ sim.rel w (ps ++ qs) s' t') ∨
    ∃ cause s' t' w', x = .error ((Builder.stream s').fault cause) s' ∧
      y = .error ((Builder.stream t').fault cause) t' ∧ sim.rel w' [] s' t'

/-- With `pre` as the last of the pending pairs, both readings succeed and leave `post` in their
place, or both stop. -/
def Agrees (sim : Simulation ω σ τ) (pre : List (ν × μ)) (post : List (ν × μ) → α → β → Prop)
    (p : Reading σ α) (q : Reading τ β) : Prop :=
  ∀ ⦃w ps s t⦄, sim.rel w (ps ++ pre) s t → sim.Outcome w ps post (p s) (q t)

/-- Both readings find values that belong together, and make no nodes. -/
def Plain (r : α → β → Prop) (qs : List (ν × μ)) (a : α) (b : β) : Prop := qs = [] ∧ r a b

/-- Both readings make one node. -/
def Made (qs : List (ν × μ)) (n : ν) (m : μ) : Prop := qs = [(n, m)]

/-- Both readings make as many nodes. -/
def MadeAll (qs : List (ν × μ)) (ns : List ν) (ms : List μ) : Prop := ns = qs.map Prod.fst ∧ ms = qs.map Prod.snd

/-- Both readings make one node, or none and `left` stays pending. -/
def Maybe (left qs : List (ν × μ)) (x : Option ν) (y : Option μ) : Prop :=
  x = none ∧ y = none ∧ qs = left ∨ ∃ n m, x = some n ∧ y = some m ∧ qs = [(n, m)]

/-- Both readings make one node, whatever is pending. -/
abbrev Makes (sim : Simulation ω σ τ) (p : Reading σ ν) (q : Reading τ μ) : Prop := sim.Agrees [] Made p q

theorem Agrees.pure {a : γ} {b : δ} (h : post pre a b) : sim.Agrees pre post (pure a) (pure b) :=
  fun _ _ _ _ hr => .inl ⟨_, _, _, _, pre, rfl, rfl, h, hr⟩

section

variable {p : Reading σ α} {q : Reading τ β} {f : α → Reading σ γ} {g : β → Reading τ δ}

theorem Agrees.bind (hp : sim.Agrees pre mid p q) (hf : ∀ {qs a b}, mid qs a b → sim.Agrees qs post (f a) (g b)) :
    sim.Agrees pre post (p >>= f) (q >>= g) := by
  intro w ps s t hr
  rcases hp hr with ⟨a, s', b, t', qs, h1, h2, hm, h⟩ | ⟨cause, s', t', w', h1, h2, h⟩
  · rw [bind_of_ok h1, bind_of_ok h2]
    exact hf hm h
  · rw [bind_of_error h1, bind_of_error h2]
    exact .inr ⟨cause, s', t', w', rfl, rfl, h⟩

/-- What is pending before stays pending. -/
theorem Agrees.frame {qs : List (ν × μ)} (hp : sim.Agrees qs mid p q) (pre : List (ν × μ)) :
    sim.Agrees (pre ++ qs) (fun ks a b => ∃ made, ks = pre ++ made ∧ mid made a b) p q := by
  intro w ps s t hr
  rw [← List.append_assoc] at hr
  rcases hp hr with ⟨a, s', b, t', made, h1, h2, hm, h⟩ | hstop
  · rw [List.append_assoc] at h
    exact .inl ⟨a, s', b, t', pre ++ made, h1, h2, ⟨made, rfl, hm⟩, h⟩
  · exact .inr hstop

/-- A step that finds values. -/
theorem Agrees.step {r : α → β → Prop} (hp : sim.Agrees [] (Plain r) p q)
    (hf : ∀ {a b}, r a b → sim.Agrees pre post (f a) (g b)) : sim.Agrees pre post (p >>= f) (q >>= g) := by
  rw [← List.append_nil pre]
  refine (hp.frame pre).bind ?_
  rintro _ a b ⟨_, rfl, rfl, hr⟩
  rw [List.append_nil]
  exact hf hr

end

/-- A step that makes several nodes. -/
theorem Agrees.makeAll {p : Reading σ (List ν)} {q : Reading τ (List μ)} {f : List ν → Reading σ γ}
    {g : List μ → Reading τ δ} (hp : sim.Agrees [] MadeAll p q)
    (hf : ∀ qs, sim.Agrees (pre ++ qs) post (f (qs.map Prod.fst)) (g (qs.map Prod.snd))) :
    sim.Agrees pre post (p >>= f) (q >>= g) := by
  rw [← List.append_nil pre]
  refine (hp.frame pre).bind ?_
  rintro _ _ _ ⟨qs, rfl, rfl, rfl⟩
  exact hf qs

section

variable {p : Reading σ ν} {q : Reading τ μ} {f : ν → Reading σ γ} {g : μ → Reading τ δ}

/-- A step that makes a node of the last pending ones. -/
theorem Agrees.makeOver {qs : List (ν × μ)} (hp : sim.Agrees qs Made p q)
    (hf : ∀ n m, sim.Agrees (pre ++ [(n, m)]) post (f n) (g m)) :
    sim.Agrees (pre ++ qs) post (p >>= f) (q >>= g) := by
  refine (hp.frame pre).bind ?_
  rintro _ n m ⟨_, rfl, rfl⟩
  exact hf n m

/-- A reading that makes a node finds one. -/
theorem Agrees.found {left : List (ν × μ)} (hp : sim.Agrees pre Made p q) :
    sim.Agrees pre (Maybe left) (p >>= fun n => Pure.pure (some n)) (q >>= fun m => Pure.pure (some m)) := by
  refine hp.bind ?_
  rintro _ n m rfl
  exact .pure (.inr ⟨n, m, rfl, rfl, rfl⟩)

/-- A step that makes a node. -/
theorem Agrees.make (hp : sim.Makes p q) (hf : ∀ n m, sim.Agrees (pre ++ [(n, m)]) post (f n) (g m)) :
    sim.Agrees pre post (p >>= f) (q >>= g) := by
  rw [← List.append_nil pre]
  exact hp.makeOver hf

end

theorem Agrees.cond {c d : Bool} {p p' : Reading σ γ} {q q' : Reading τ δ} (hc : c = d)
    (ht : sim.Agrees pre post p q) (hf : sim.Agrees pre post p' q') :
    sim.Agrees pre post (if c = true then p else p') (if d = true then q else q') := by
  subst hc
  split
  · exact ht
  · exact hf

/-! ## Single tokens -/

theorem stream_bind_run (s : σ) (f : TokenStream → Reading σ α) :
    (stream >>= f) s = f (Builder.stream s) s := rfl

theorem stream_agrees : sim.Agrees [] (Plain fun s t => AllAlike s.ahead t.ahead) stream stream :=
  fun _ _ _ _ hr => .inl ⟨_, _, _, _, [], rfl, rfl, ⟨rfl, sim.alike hr⟩, hr⟩

theorem offset_agrees : sim.Agrees [] (Plain sim.starts) offset offset :=
  fun _ _ _ _ hr => .inl ⟨_, _, _, _, [], rfl, rfl, ⟨rfl, sim.place hr⟩, hr⟩

theorem advance_agrees : sim.Agrees [] (Plain fun _ _ => True) Parse.advance Parse.advance := by
  intro w ps s t hr
  exact .inl ⟨_, _, _, _, [], rfl, rfl, ⟨rfl, trivial⟩, by simpa using sim.advance hr⟩

theorem isAt_agrees (mark : Punct) : sim.Agrees [] (Plain Eq) (isAt mark) (isAt mark) := by
  intro w ps s t hr
  refine .inl ⟨_, _, _, _, [], rfl, rfl, ⟨rfl, ?_⟩, hr⟩
  rw [TokenStream.isAt_alike (sim.alike hr)]

theorem acceptAny_agrees (marks : List Punct) : sim.Agrees [] (Plain Eq) (acceptAny marks) (acceptAny marks) := by
  intro w ps s t hr
  unfold acceptAny
  rw [TokenStream.isAt_alike (sim.alike hr)]
  split
  · exact .inl ⟨_, _, _, _, [], rfl, rfl, ⟨rfl, rfl⟩, by simpa using sim.advance hr⟩
  · exact .inl ⟨_, _, _, _, [], rfl, rfl, ⟨rfl, rfl⟩, hr⟩

theorem fail_agrees (cause : ParseCause) : sim.Agrees pre post (fail cause) (fail cause) := by
  intro w ps s t hr
  obtain ⟨w', h⟩ := sim.forget hr
  exact .inr ⟨cause, s, t, w', rfl, rfl, h⟩

theorem expect_agrees (slot : Slot) : sim.Agrees [] (Plain fun _ _ => True) (expect slot) (expect slot) := by
  intro w ps s t hr
  unfold expect
  rw [TokenStream.isAt_alike (sim.alike hr)]
  split
  · exact .inl ⟨_, _, _, _, [], rfl, rfl, ⟨rfl, trivial⟩, by simpa using sim.advance hr⟩
  · obtain ⟨w', h⟩ := sim.forget hr
    exact .inr ⟨.missing slot, s, t, w', rfl, rfl, h⟩

/-- A node is closed over all that a production has made. -/
theorem close_agrees {kind : Kind} {i j : Nat} {ns : List ν} {ms : List μ} (hs : sim.starts i j)
    (hn : pre.map Prod.fst = ns) (hm : pre.map Prod.snd = ms) :
    sim.Agrees pre Made (close kind i ns) (close kind j ms) := by
  subst hn hm
  intro w ps s t hr
  obtain ⟨n, s', m, t', h1, h2, h⟩ := sim.node kind hr hs
  exact .inl ⟨n, s', m, t', _, h1, h2, rfl, h⟩

theorem closeFrom_agrees {kind : Kind} {n : ν} {m : μ} (qs : List (ν × μ)) :
    sim.Agrees ((n, m) :: qs) Made (closeFrom kind n (n :: qs.map Prod.fst))
      (closeFrom kind m (m :: qs.map Prod.snd)) := by
  intro w ps s t hr
  have hs := sim.startOf hr (List.mem_append_right ps List.mem_cons_self)
  obtain ⟨n, s', m, t', h1, h2, h⟩ := sim.node kind hr hs
  exact .inl ⟨n, s', m, t', _, h1, h2, rfl, h⟩

/-! ## Leaves -/

section

variable {w : ω} {ps : List (ν × μ)} {s : σ} {t : τ}

/-- Both readings make a leaf of their next token. -/
theorem leaf_outcome {x y : Token} {a b : Atom} (hr : sim.rel w (ps ++ []) s t)
    (hs : (Builder.stream s).current? = some x) (ht : (Builder.stream t).current? = some y) (ha : x.atom? = some a)
    (hb : y.atom? = some b) : sim.Outcome w ps Made (Parse.leaf a s) (Parse.leaf b t) := by
  obtain ⟨n, s', m, t', h1, h2, h⟩ := sim.leaf (List.append_nil ps ▸ hr) hs ht ha hb
  exact .inl ⟨n, s', m, t', _, h1, h2, rfl, h⟩

end

theorem name_makes (slot : NameSlot) : sim.Makes (name slot) (name slot) := by
  intro w ps s t hr
  have hstop : sim.Outcome w ps Made (fail (.missingName slot) s) (fail (.missingName slot) t) := fail_agrees _ hr
  unfold name
  rw [stream_bind_run, stream_bind_run]
  rcases TokenStream.current?_alike (sim.alike hr) with heq | ⟨n, m, hs, ht⟩
  · rw [heq]
    rcases ht : (Builder.stream t).current? with _ | token
    · exact hstop
    · cases token with
      | identifier n => exact leaf_outcome hr (heq.trans ht) ht rfl rfl
      | _ => exact hstop
  · rw [hs, ht]
    exact leaf_outcome hr hs ht rfl rfl

/-! ## Loops and lists -/

theorem manyFor_agrees {item? : Reading σ (Option ν)} {item?' : Reading τ (Option μ)}
    (hi : sim.Agrees [] (Maybe []) item? item?') :
    ∀ {rounds rounds' : List Lexeme}, rounds.length = rounds'.length →
      sim.Agrees [] MadeAll (manyFor item? rounds) (manyFor item?' rounds')
  | [], [], _ => .pure ⟨rfl, rfl⟩
  | [], _ :: _, hlen => by cases hlen
  | _ :: _, [], hlen => by cases hlen
  | _ :: rounds, _ :: rounds', hlen => by
    refine hi.bind ?_
    rintro _ _ _ (⟨rfl, rfl, rfl⟩ | ⟨n, m, rfl, rfl, rfl⟩)
    · exact .pure ⟨rfl, rfl⟩
    · exact (manyFor_agrees hi (Nat.succ.inj hlen)).makeAll fun qs => .pure ⟨rfl, rfl⟩

theorem many_agrees {item? : Reading σ (Option ν)} {item?' : Reading τ (Option μ)}
    (hi : sim.Agrees [] (Maybe []) item? item?') : sim.Agrees [] MadeAll (many item?) (many item?') :=
  stream_agrees.step fun h => manyFor_agrees hi h.length_eq

theorem growFor_agrees {more? : ν → Reading σ (Option ν)} {more?' : μ → Reading τ (Option μ)}
    (hm : ∀ n m, sim.Agrees [(n, m)] (Maybe [(n, m)]) (more? n) (more?' m)) :
    ∀ {rounds rounds' : List Lexeme} {n : ν} {m : μ}, rounds.length = rounds'.length →
      sim.Agrees [(n, m)] Made (growFor more? rounds n) (growFor more?' rounds' m)
  | [], [], _, _, _ => .pure rfl
  | [], _ :: _, _, _, hlen => by cases hlen
  | _ :: _, [], _, _, hlen => by cases hlen
  | _ :: rounds, _ :: rounds', n, m, hlen => by
    refine (hm n m).bind ?_
    rintro _ _ _ (⟨rfl, rfl, rfl⟩ | ⟨n, m, rfl, rfl, rfl⟩)
    · exact .pure rfl
    · exact growFor_agrees hm (Nat.succ.inj hlen)

/-- A node that grows is pending all the while. -/
theorem grow_agrees {more? : ν → Reading σ (Option ν)} {more?' : μ → Reading τ (Option μ)}
    (hm : ∀ n m, sim.Agrees [(n, m)] (Maybe [(n, m)]) (more? n) (more?' m)) (n : ν) (m : μ) :
    sim.Agrees [(n, m)] Made (grow more? n) (grow more?' m) :=
  stream_agrees.step fun h => growFor_agrees hm h.length_eq

section

variable {item : Reading σ ν} {item' : Reading τ μ}

theorem separatedItem?_agrees (hi : sim.Makes item item') (mark : Punct) :
    sim.Agrees [] (Maybe []) (separatedItem? mark item) (separatedItem? mark item') :=
  (acceptAny_agrees [mark]).step fun h => .cond h
    hi.found (.pure (.inl ⟨rfl, rfl, rfl⟩))

theorem commaSeparated_agrees (hi : sim.Makes item item') :
    sim.Agrees [] MadeAll (commaSeparated item) (commaSeparated item') :=
  hi.make fun _ _ => (many_agrees (separatedItem?_agrees hi .comma)).makeAll fun _ => .pure ⟨rfl, rfl⟩

theorem commaSeparatedBefore_agrees (hi : sim.Makes item item') (closing : Punct) :
    sim.Agrees [] MadeAll (commaSeparatedBefore closing item) (commaSeparatedBefore closing item') :=
  (isAt_agrees closing).step fun h => .cond h (.pure ⟨rfl, rfl⟩) (commaSeparated_agrees hi)

end

/-! ## Productions -/

/-- The productions of a level agree. -/
structure NestedAgrees (sim : Simulation ω σ τ) (inner : NestedIn σ ν) (inner' : NestedIn τ μ) : Prop where
  type : sim.Makes inner.type inner'.type
  block : sim.Makes inner.block inner'.block
  expression : sim.Makes inner.expression inner'.expression
  operand : sim.Makes inner.operand inner'.operand

section

variable {inner : NestedIn σ ν} {inner' : NestedIn τ μ} (hi : sim.NestedAgrees inner inner')
include hi

theorem typeArgumentList_makes : sim.Makes (typeArgumentList inner) (typeArgumentList inner') :=
  offset_agrees.step fun hs => advance_agrees.step fun _ =>
    (commaSeparated_agrees hi.type).makeAll fun _ => (expect_agrees _).step fun _ => close_agrees hs rfl rfl

theorem typeBody_makes : sim.Makes (typeBody inner) (typeBody inner') := by
  refine offset_agrees.step fun hs => (name_makes .typeName).make fun first first' =>
    (many_agrees (separatedItem?_agrees (name_makes .typeSegment) .dot)).makeAll fun more =>
      (isAt_agrees .less).step fun h => .cond h ?_ (close_agrees hs rfl rfl)
  exact (typeArgumentList_makes hi).make fun a a' => close_agrees hs (by simp) (by simp)

theorem typedParameter_makes : sim.Makes (typedParameter inner) (typedParameter inner') :=
  offset_agrees.step fun hs => hi.type.make fun _ _ => (name_makes .parameterName).make fun _ _ =>
    close_agrees hs rfl rfl

theorem lambdaParameter_makes : sim.Makes (lambdaParameter inner) (lambdaParameter inner') := by
  refine stream_agrees.step fun h => .cond (Lookahead.startsUntypedParameter_alike h) ?_ (typedParameter_makes hi)
  exact offset_agrees.step fun hs => (name_makes .parameterName).make fun _ _ => close_agrees hs rfl rfl

theorem lambdaBody_makes : sim.Makes (lambdaBody inner) (lambdaBody inner') :=
  (isAt_agrees .leftBrace).step fun h => .cond h hi.block hi.expression

theorem bareLambda_makes : sim.Makes (bareLambda inner) (bareLambda inner') :=
  offset_agrees.step fun hs => (lambdaParameter_makes hi).make fun _ _ => (expect_agrees _).step fun _ =>
    (lambdaBody_makes hi).make fun _ _ => close_agrees hs rfl rfl

theorem parenthesizedLambda_makes : sim.Makes (parenthesizedLambda inner) (parenthesizedLambda inner') :=
  offset_agrees.step fun hs => (expect_agrees _).step fun _ =>
    (commaSeparatedBefore_agrees (lambdaParameter_makes hi) .rightParen).makeAll fun _ =>
      (expect_agrees _).step fun _ => (close_agrees hs rfl rfl).makeOver fun _ _ =>
        (expect_agrees _).step fun _ => (lambdaBody_makes hi).make fun _ _ => close_agrees hs rfl rfl

theorem argument_makes : sim.Makes (argument inner) (argument inner') :=
  offset_agrees.step fun hs => hi.expression.make fun _ _ => close_agrees hs rfl rfl

theorem argumentList_makes : sim.Makes (argumentList inner) (argumentList inner') :=
  offset_agrees.step fun hs => (expect_agrees _).step fun _ =>
    (commaSeparatedBefore_agrees (argument_makes hi) .rightParen).makeAll fun _ =>
      (expect_agrees _).step fun _ => close_agrees hs rfl rfl

theorem group_makes : sim.Makes (group inner) (group inner') :=
  offset_agrees.step fun hs => advance_agrees.step fun _ => hi.expression.make fun _ _ =>
    (expect_agrees _).step fun _ => close_agrees hs rfl rfl

theorem primary_makes : sim.Makes (primary inner) (primary inner') := by
  intro w ps s t hr
  have hstop : sim.Outcome w ps Made (fail .missingExpression s) (fail .missingExpression t) := fail_agrees _ hr
  unfold primary
  rw [stream_bind_run, stream_bind_run]
  rcases TokenStream.current?_alike (sim.alike hr) with heq | ⟨n, m, hs, ht⟩
  · rw [heq]
    rcases ht : (Builder.stream t).current? with _ | token
    · exact hstop
    · have hs := heq.trans ht
      cases token with
      | identifier _ | number _ | string _ => exact leaf_outcome hr hs ht rfl rfl
      | keyword word =>
        cases word with
        | trueWord | falseWord | nullWord => exact leaf_outcome hr hs ht rfl rfl
        | _ => exact hstop
      | punct mark =>
        cases mark with
        | leftParen => exact group_makes hi hr
        | _ => exact hstop
  · rw [hs, ht]
    exact leaf_outcome hr hs ht rfl rfl

theorem trailer?_agrees (n : ν) (m : μ) :
    sim.Agrees [(n, m)] (Maybe [(n, m)]) (trailer? inner n) (trailer? inner' m) := by
  refine (isAt_agrees .leftParen).step fun h => .cond h ?_ ?_
  · exact (argumentList_makes hi).make fun a a' => (closeFrom_agrees [(a, a')]).found
  · refine (acceptAny_agrees [.dot]).step fun h => .cond h ?_ (.pure (.inl ⟨rfl, rfl, rfl⟩))
    exact (name_makes .memberName).make fun a a' => (closeFrom_agrees [(a, a')]).found

theorem call_makes : sim.Makes (call inner) (call inner') :=
  (primary_makes hi).make fun n m => grow_agrees (trailer?_agrees hi) n m

theorem unary_makes : sim.Makes (unary inner) (unary inner') := by
  refine offset_agrees.step fun hs => (acceptAny_agrees _).step fun h => .cond h ?_ (call_makes hi)
  exact hi.operand.make fun _ _ => close_agrees hs rfl rfl

omit hi

theorem binaryLevel_makes {operand : Reading σ ν} {operand' : Reading τ μ} (ho : sim.Makes operand operand')
    (operators : List Punct) : sim.Makes (binaryLevel operators operand) (binaryLevel operators operand') := by
  refine ho.make fun n m => grow_agrees (fun n m => ?_) n m
  refine (acceptAny_agrees operators).step fun h => .cond h ?_ (.pure (.inl ⟨rfl, rfl, rfl⟩))
  exact ho.make fun a a' => (closeFrom_agrees [(a, a')]).found

include hi

theorem binary_makes : sim.Makes (binary inner) (binary inner') := by
  unfold binary
  induction binaryOperators with
  | nil => exact unary_makes hi
  | cons operators levels ih => exact binaryLevel_makes ih operators

theorem expressionBody_makes : sim.Makes (expressionBody inner) (expressionBody inner') :=
  stream_agrees.step fun h => .cond (Lookahead.startsBareLambda_alike h) (bareLambda_makes hi) <|
    .cond (Lookahead.startsParenthesizedLambda_alike h) (parenthesizedLambda_makes hi) (binary_makes hi)

theorem localDeclaration_makes : sim.Makes (localDeclaration inner) (localDeclaration inner') :=
  offset_agrees.step fun hs => advance_agrees.step fun _ => (name_makes .localName).make fun _ _ =>
    (expect_agrees _).step fun _ => hi.expression.make fun _ _ => (expect_agrees _).step fun _ =>
      close_agrees hs rfl rfl

theorem returnStatement_makes : sim.Makes (returnStatement inner) (returnStatement inner') := by
  refine offset_agrees.step fun hs => advance_agrees.step fun _ => (isAt_agrees .semicolon).step fun h => .cond h ?_ ?_
  · exact (expect_agrees _).step fun _ => close_agrees hs rfl rfl
  · exact hi.expression.make fun _ _ => (expect_agrees _).step fun _ => close_agrees hs rfl rfl

theorem expressionStatement_makes : sim.Makes (expressionStatement inner) (expressionStatement inner') :=
  offset_agrees.step fun hs => hi.expression.make fun _ _ => (expect_agrees _).step fun _ => close_agrees hs rfl rfl

theorem statement_makes : sim.Makes (statement inner) (statement inner') := by
  intro w ps s t hr
  have hvalue := expressionStatement_makes hi hr
  unfold statement
  rw [stream_bind_run, stream_bind_run]
  rcases TokenStream.current?_alike (sim.alike hr) with heq | ⟨n, m, hs, ht⟩
  · rw [heq]
    rcases (Builder.stream t).current? with _ | token
    · exact hvalue
    · cases token with
      | keyword word =>
        cases word with
        | varWord => exact localDeclaration_makes hi hr
        | returnWord => exact returnStatement_makes hi hr
        | _ => exact hvalue
      | punct mark =>
        cases mark with
        | leftBrace => exact hi.block hr
        | _ => exact hvalue
      | _ => exact hvalue
  · rw [hs, ht]
    exact hvalue

theorem blockBody_makes : sim.Makes (blockBody inner) (blockBody inner') := by
  have hitem : sim.Agrees [] (Maybe []) (blockItem? inner) (blockItem? inner') := by
    refine stream_agrees.step fun {s t} h => .cond ?_ (.pure (.inl ⟨rfl, rfl, rfl⟩)) ?_
    · rw [TokenStream.isAt_alike h, h.isEmpty_eq]
    · exact (statement_makes hi).found
  exact offset_agrees.step fun hs => (expect_agrees _).step fun _ => (many_agrees hitem).makeAll fun _ =>
    (expect_agrees _).step fun _ => close_agrees hs rfl rfl

theorem methodDeclaration_makes : sim.Makes (methodDeclaration inner) (methodDeclaration inner') :=
  offset_agrees.step fun hs => hi.type.make fun _ _ => (name_makes .methodName).make fun _ _ =>
    offset_agrees.step fun hl => (expect_agrees _).step fun _ =>
      (commaSeparatedBefore_agrees (typedParameter_makes hi) .rightParen).makeAll fun _ =>
        (expect_agrees _).step fun _ => (close_agrees hl rfl rfl).makeOver fun _ _ =>
          (expect_agrees _).step fun _ => close_agrees hs rfl rfl

end

/-- The productions of every level agree. -/
theorem nestedIn_agrees (cap : Nat) : ∀ levels, sim.NestedAgrees (nestedIn cap levels) (nestedIn cap levels)
  | 0 => ⟨fail_agrees _, fail_agrees _, fail_agrees _, fail_agrees _⟩
  | levels + 1 =>
    have hi := nestedIn_agrees cap levels
    ⟨typeBody_makes hi, blockBody_makes hi, expressionBody_makes hi, unary_makes hi⟩

theorem item_makes (cap : Nat) : sim.Makes (item cap) (item cap) :=
  have hi := nestedIn_agrees cap cap
  stream_agrees.step fun h => .cond (Lookahead.startsMethod_alike cap h) (methodDeclaration_makes hi)
    (statement_makes hi)

/-! ## Items -/

section

variable {w : ω} {ps : List (ν × μ)} {s : σ} {t : τ}

theorem resumeFrom_rel : ∀ {ls ms : List Lexeme} {s : σ} {t : τ}, AllAlike ls ms → sim.rel w ps s t →
    sim.rel w ps (resumeFrom ls s) (resumeFrom ms t)
  | _, _, _, _, .nil, h => h
  | l :: ls, m :: ms, s, t, .cons hl hls, h => by
    rw [resumeFrom, resumeFrom]
    simp only [hl.punct_iff]
    split
    · exact sim.advance h
    · exact resumeFrom_rel hls (sim.advance h)

/-- Both readings find as many faults, and if there are none, then their items are pairs pending
behind the ones before. -/
theorem itemsFor_agree (cap : Nat) : ∀ {rounds rounds' : List Lexeme} {w : ω} {ps : List (ν × μ)} {s : σ} {t : τ},
    rounds.length = rounds'.length → sim.rel w ps s t →
    (itemsFor cap rounds s).faults.length = (itemsFor cap rounds' t).faults.length ∧
      ((itemsFor cap rounds s).faults = [] → ∃ qs, (itemsFor cap rounds s).nodes = qs.map Prod.fst ∧
        (itemsFor cap rounds' t).nodes = qs.map Prod.snd ∧
        sim.rel w (ps ++ qs) (itemsFor cap rounds s).state (itemsFor cap rounds' t).state)
  | [], [], _, _, _, _, _, hr => ⟨rfl, fun _ => ⟨[], rfl, rfl, (List.append_nil _).symm ▸ hr⟩⟩
  | [], _ :: _, _, _, _, _, hlen, _ => by cases hlen
  | _ :: _, [], _, _, _, _, hlen, _ => by cases hlen
  | _ :: rounds, _ :: rounds', w, ps, s, t, hlen, hr => by
    have hempty : (Builder.stream s).ahead.isEmpty = (Builder.stream t).ahead.isEmpty := (sim.alike hr).isEmpty_eq
    unfold itemsFor
    rw [hempty]
    split
    · exact ⟨rfl, fun _ => ⟨[], rfl, rfl, (List.append_nil _).symm ▸ hr⟩⟩
    rcases item_makes cap ((List.append_nil ps).symm ▸ hr) with
      ⟨n, s', m, t', _, h1, h2, rfl, h⟩ | ⟨cause, s', t', w', h1, h2, h⟩
    · obtain ⟨hfaults, hnodes⟩ := itemsFor_agree cap (Nat.succ.inj hlen) h
      rw [h1, h2]
      refine ⟨hfaults, fun hnone => ?_⟩
      obtain ⟨qs, hn, hm, hrel⟩ := hnodes hnone
      refine ⟨(n, m) :: qs, congrArg (n :: ·) hn, congrArg (m :: ·) hm, ?_⟩
      rwa [List.append_cons]
    · have hresume := resumeFrom_rel (sim.alike h) h
      obtain ⟨hfaults, -⟩ := itemsFor_agree cap (Nat.succ.inj hlen) hresume
      rw [h1, h2]
      exact ⟨congrArg Nat.succ hfaults, fun hnone => by cases hnone⟩

end

end Simulation

end LetLint
