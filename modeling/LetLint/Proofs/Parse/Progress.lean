/-
Progress. A production that succeeds has taken a token, whatever the state it was called in, if the productions
that it is given do the same; so all of them do. Hence each round of a loop takes a token or is the last one, and
the rounds that a loop is given are more than enough: it ends because it has come to its end or to a fault. What a
loop does without a bound on its rounds is given by a relation, in which only a loop that ends has a result.
-/
import LetLint.Proofs.Parse.Lookahead
import LetLint.Proofs.Parse.Recovery

namespace LetLint.Parse

variable {σ ν α β : Type} [Builder σ ν]

/-! ## Productions -/

/-- The productions: those that open a level of nesting, those that do not, and a level of binary operators over
any other one. -/
inductive Production where
  | name (slot : NameSlot)
  | typeArgumentList
  | typeBody
  | type
  | typedParameter
  | lambdaParameter
  | lambdaBody
  | bareLambda
  | parenthesizedLambda
  | argument
  | argumentList
  | group
  | primary
  | call
  | unary
  | operand
  | binaryLevel (operators : List Punct) (next : Production)
  | expressionBody
  | expression
  | localDeclaration
  | returnStatement
  | expressionStatement
  | statement
  | blockBody
  | block
  | methodDeclaration
  | item

/-- A method declaration or a statement, given the productions of the next level. -/
def itemIn (cap : Nat) (inner : NestedIn σ ν) : Reading σ ν := do
  if Lookahead.startsMethod cap (← stream).ahead then methodDeclaration inner else statement inner

/-- An item of a text is read with no level of nesting entered. -/
theorem item_eq (cap : Nat) : (item cap : Reading σ ν) = itemIn cap (nestedIn cap cap) := rfl

/-- What a production reads, given the productions of the next level. -/
def Production.read (cap : Nat) (inner : NestedIn σ ν) : Production → Reading σ ν
  | .name slot => Parse.name slot
  | .typeArgumentList => Parse.typeArgumentList inner
  | .typeBody => Parse.typeBody inner
  | .type => inner.type
  | .typedParameter => Parse.typedParameter inner
  | .lambdaParameter => Parse.lambdaParameter inner
  | .lambdaBody => Parse.lambdaBody inner
  | .bareLambda => Parse.bareLambda inner
  | .parenthesizedLambda => Parse.parenthesizedLambda inner
  | .argument => Parse.argument inner
  | .argumentList => Parse.argumentList inner
  | .group => Parse.group inner
  | .primary => Parse.primary inner
  | .call => Parse.call inner
  | .unary => Parse.unary inner
  | .operand => inner.operand
  | .binaryLevel operators next => Parse.binaryLevel operators (next.read cap inner)
  | .expressionBody => Parse.expressionBody inner
  | .expression => inner.expression
  | .localDeclaration => Parse.localDeclaration inner
  | .returnStatement => Parse.returnStatement inner
  | .expressionStatement => Parse.expressionStatement inner
  | .statement => Parse.statement inner
  | .blockBody => Parse.blockBody inner
  | .block => inner.block
  | .methodDeclaration => Parse.methodDeclaration inner
  | .item => itemIn cap inner

/-! ## Tokens that are taken -/

/-- The number of tokens ahead. -/
def left (s : σ) : Nat := (Builder.stream s).ahead.length

/-- If the reading succeeds, it has taken at least so many tokens. -/
def Takes (count : Nat) (p : Reading σ α) : Prop :=
  ∀ ⦃s : σ⦄ ⦃a : α⦄ ⦃s' : σ⦄, p s = .ok a s' → left s' + count ≤ left s

/-- If the reading finds something, it has taken at least one token. -/
def Finds (p : Reading σ (Option α)) : Prop :=
  ∀ ⦃s : σ⦄ ⦃found : Option α⦄ ⦃s' : σ⦄, p s = .ok found s' → left s' + found.toList.length ≤ left s

section

variable {p : Reading σ α} {f : α → Reading σ β} {j k : Nat}

theorem Takes.bind (hp : Takes j p) (hf : ∀ a, Takes k (f a)) : Takes (j + k) (p >>= f) := by
  intro s b s'' h
  obtain ⟨a, s', h1, h2⟩ := bind_eq_ok.1 h
  have hfirst := hp h1
  have hsecond := hf a h2
  omega

/-- A step that may take no token. -/
theorem Takes.step (hp : Takes 0 p) (hf : ∀ a, Takes k (f a)) : Takes k (p >>= f) := by
  have h := hp.bind hf
  rwa [Nat.zero_add] at h

/-- The step that takes the tokens. -/
theorem Takes.first (hp : Takes k p) (hf : ∀ a, Takes 0 (f a)) : Takes k (p >>= f) := hp.bind hf

theorem Takes.weaken (hp : Takes 1 p) : Takes 0 p := fun _ _ _ h => Nat.le_of_succ_le (hp h)

theorem Takes.cond {c : Bool} {p q : Reading σ α} (hp : Takes k p) (hq : Takes k q) :
    Takes k (if c = true then p else q) := by
  cases c
  · exact hq
  · exact hp

theorem takes_pure (a : α) : Takes 0 (pure a : Reading σ α) := by
  rintro s b s' ⟨⟩
  exact Nat.le_refl _

theorem takes_stream : Takes 0 (stream : Reading σ TokenStream) := by
  rintro s a s' ⟨⟩
  exact Nat.le_refl _

theorem takes_offset : Takes 0 (offset : Reading σ Nat) := by
  rintro s a s' ⟨⟩
  exact Nat.le_refl _

theorem takes_isAt (mark : Punct) : Takes 0 (isAt mark : Reading σ Bool) := by
  rintro s a s' ⟨⟩
  exact Nat.le_refl _

theorem takes_fail (cause : ParseCause) : Takes k (fail cause : Reading σ α) := by
  rintro s a s' ⟨⟩

end

section

variable {p : Reading σ (Option α)} {q : Reading σ β} {f : β → Reading σ (Option α)}

theorem Finds.takes (hp : Finds p) : Takes 0 p := fun _ _ _ h => Nat.le_trans (Nat.le_add_right _ _) (hp h)

theorem Takes.finds (hp : Takes 1 p) : Finds p := by
  intro s found s' h
  refine Nat.le_trans (Nat.add_le_add_left ?_ _) (hp h)
  cases found <;> simp

theorem Takes.finds_of (hq : Takes 0 q) (hf : ∀ b, Finds (f b)) : Finds (q >>= f) := by
  intro s found s'' h
  obtain ⟨b, s', h1, h2⟩ := bind_eq_ok.1 h
  exact Nat.le_trans (hf b h2) (hq h1)

theorem Finds.cond {c : Bool} {p q : Reading σ (Option α)} (hp : Finds p) (hq : Finds q) :
    Finds (if c = true then p else q) := by
  cases c
  · exact hq
  · exact hp

theorem finds_none : Finds (pure none : Reading σ (Option α)) := by
  rintro s found s' ⟨⟩
  exact Nat.le_refl _

end

/-! ## Loops -/

theorem takes_manyFor {item? : Reading σ (Option α)} (hi : Finds item?) (rounds : List Lexeme) :
    Takes 0 (manyFor item? rounds) := by
  induction rounds with
  | nil => exact takes_pure []
  | cons r rounds ih =>
    refine hi.takes.step fun found => ?_
    cases found with
    | none => exact takes_pure []
    | some a => exact ih.step fun as => takes_pure (a :: as)

theorem takes_many {item? : Reading σ (Option α)} (hi : Finds item?) : Takes 0 (many item?) :=
  takes_stream.step fun s => takes_manyFor hi s.ahead

theorem takes_growFor {more? : α → Reading σ (Option α)} (hm : ∀ a, Finds (more? a)) (rounds : List Lexeme) (a : α) :
    Takes 0 (growFor more? rounds a) := by
  induction rounds generalizing a with
  | nil => exact takes_pure a
  | cons r rounds ih =>
    refine (hm a).takes.step fun found => ?_
    cases found with
    | none => exact takes_pure a
    | some b => exact ih b

theorem takes_grow {more? : α → Reading σ (Option α)} (hm : ∀ a, Finds (more? a)) (a : α) : Takes 0 (grow more? a) :=
  takes_stream.step fun s => takes_growFor hm s.ahead a

/-! ## Single tokens -/

section

variable [LawfulBuilder σ]

theorem left_advance (s : σ) : left (Builder.advance s) = left s - 1 := by
  unfold left Builder.advance
  rw [LawfulBuilder.stream_withStream, TokenStream.ahead_advance, List.length_tail]

theorem left_advance_lt {s : σ} {token : Token} (h : (Builder.stream s).current? = some token) :
    left (Builder.advance s) + 1 ≤ left s := by
  have hne : (Builder.stream s).ahead ≠ [] := by
    rintro hnil
    rw [TokenStream.current?, hnil] at h
    cases h
  have hpos := List.length_pos_iff.2 hne
  rw [left_advance]
  unfold left
  omega

theorem takes_advance : Takes 0 (advance : Reading σ Unit) := by
  rintro s a s' ⟨⟩
  rw [left_advance]
  omega

theorem takes_acceptAny (marks : List Punct) : Takes 0 (acceptAny marks : Reading σ Bool) := by
  intro s a s' h
  unfold acceptAny at h
  split at h
  · cases h
    exact takes_advance rfl
  · cases h
    exact Nat.le_refl _

theorem takes_expect (slot : Slot) : Takes 1 (expect slot : Reading σ Unit) := by
  intro s a s' h
  unfold expect at h
  split at h
  · rename_i hat
    cases h
    exact left_advance_lt (eq_of_beq hat)
  · cases h

theorem takes_close (kind : Kind) (start : Nat) (children : List ν) :
    Takes 0 (close kind start children : Reading σ ν) := by
  intro s n s' h
  have hstream : Builder.stream s' = Builder.stream s := by
    cases h
    exact LawfulBuilder.stream_makeNode _ _ _ _
  rw [left, left, hstream]
  exact Nat.le_refl _

theorem takes_closeFrom (kind : Kind) (first : ν) (children : List ν) :
    Takes 0 (closeFrom kind first children : Reading σ ν) :=
  fun _ _ _ h => takes_close kind _ children h

theorem leaf_takes {atom : Atom} {s s' : σ} {n : ν} {token : Token} (hs : (Builder.stream s).current? = some token)
    (h : leaf atom s = .ok n s') : left s' + 1 ≤ left s := by
  have hstream : Builder.stream s' = Builder.stream (Builder.advance s) := by
    cases h
    exact LawfulBuilder.stream_makeLeaf _ _ _
  rw [left, hstream]
  exact left_advance_lt hs

theorem takes_name (slot : NameSlot) : Takes 1 (name slot : Reading σ ν) := by
  intro s n s' h
  unfold name at h
  rw [Simulation.stream_bind_run] at h
  rcases hs : (Builder.stream s).current? with _ | token
  · rw [hs] at h
    cases h
  · rw [hs] at h
    cases token with
    | identifier n => exact leaf_takes hs h
    | _ => cases h

end

/-! ## Productions that take a token -/

section

variable [LawfulBuilder σ] {item : Reading σ ν}

theorem finds_separatedItem? (hi : Takes 1 item) (mark : Punct) : Finds (separatedItem? mark item) :=
  (takes_acceptAny [mark]).finds_of fun _ => .cond (hi.first fun n => takes_pure (some n)).finds finds_none

theorem takes_commaSeparated (hi : Takes 1 item) : Takes 1 (commaSeparated item) :=
  hi.first fun n => (takes_many (finds_separatedItem? hi .comma)).step fun ns => takes_pure (n :: ns)

theorem takes_commaSeparatedBefore (hi : Takes 1 item) (closing : Punct) :
    Takes 0 (commaSeparatedBefore closing item) :=
  (takes_isAt closing).step fun _ => .cond (takes_pure []) (takes_commaSeparated hi).weaken

theorem finds_operation? {operand : Reading σ ν} (ho : Takes 1 operand) (operators : List Punct) (n : ν) :
    Finds (operation? operators operand n) :=
  (takes_acceptAny operators).finds_of fun _ => .cond
    (ho.first fun m => (takes_closeFrom .binary n [n, m]).step fun b => takes_pure (some b)).finds finds_none

theorem takes_binaryLevel {operand : Reading σ ν} (ho : Takes 1 operand) (operators : List Punct) :
    Takes 1 (binaryLevel operators operand) :=
  ho.first fun n => takes_grow (finds_operation? ho operators) n

end

/-- Each of the productions takes a token. -/
structure NestedTakes (inner : NestedIn σ ν) : Prop where
  type : Takes 1 inner.type
  block : Takes 1 inner.block
  expression : Takes 1 inner.expression
  operand : Takes 1 inner.operand

section

variable [LawfulBuilder σ] {inner : NestedIn σ ν} (hi : NestedTakes inner)
include hi

theorem takes_typeArgumentList : Takes 1 (typeArgumentList inner) :=
  takes_offset.step fun _ => takes_advance.step fun _ => (takes_commaSeparated hi.type).first fun _ =>
    (takes_expect _).weaken.step fun _ => takes_close _ _ _

theorem takes_typeBody : Takes 1 (typeBody inner) := by
  refine takes_offset.step fun _ => (takes_name _).first fun _ =>
    (takes_many (finds_separatedItem? (takes_name .typeSegment) .dot)).step fun _ =>
      (takes_isAt _).step fun _ => .cond ?_ (takes_close _ _ _)
  exact (takes_typeArgumentList hi).weaken.step fun _ => takes_close _ _ _

theorem takes_typedParameter : Takes 1 (typedParameter inner) :=
  takes_offset.step fun _ => hi.type.first fun _ => (takes_name _).weaken.step fun _ => takes_close _ _ _

theorem takes_lambdaParameter : Takes 1 (lambdaParameter inner) := by
  refine takes_stream.step fun _ => .cond ?_ (takes_typedParameter hi)
  exact takes_offset.step fun _ => (takes_name _).first fun _ => takes_close _ _ _

omit [LawfulBuilder σ] in
theorem takes_lambdaBody : Takes 1 (lambdaBody inner) := (takes_isAt _).step fun _ => .cond hi.block hi.expression

theorem takes_bareLambda : Takes 1 (bareLambda inner) :=
  takes_offset.step fun _ => (takes_lambdaParameter hi).first fun _ => (takes_expect _).weaken.step fun _ =>
    (takes_lambdaBody hi).weaken.step fun _ => takes_close _ _ _

theorem takes_parenthesizedLambda : Takes 1 (parenthesizedLambda inner) :=
  takes_offset.step fun _ => (takes_expect _).first fun _ =>
    (takes_commaSeparatedBefore (takes_lambdaParameter hi) _).step fun _ => (takes_expect _).weaken.step fun _ =>
      (takes_close _ _ _).step fun _ => (takes_expect _).weaken.step fun _ =>
        (takes_lambdaBody hi).weaken.step fun _ => takes_close _ _ _

theorem takes_argument : Takes 1 (argument inner) :=
  takes_offset.step fun _ => hi.expression.first fun _ => takes_close _ _ _

theorem takes_argumentList : Takes 1 (argumentList inner) :=
  takes_offset.step fun _ => (takes_expect _).first fun _ =>
    (takes_commaSeparatedBefore (takes_argument hi) _).step fun _ => (takes_expect _).weaken.step fun _ =>
      takes_close _ _ _

theorem takes_group : Takes 1 (group inner) :=
  takes_offset.step fun _ => takes_advance.step fun _ => hi.expression.first fun _ =>
    (takes_expect _).weaken.step fun _ => takes_close _ _ _

theorem takes_primary : Takes 1 (primary inner) := by
  intro s n s' h
  unfold primary at h
  rw [Simulation.stream_bind_run] at h
  rcases hs : (Builder.stream s).current? with _ | token
  · rw [hs] at h
    cases h
  · rw [hs] at h
    cases token with
    | identifier _ | number _ | string _ => exact leaf_takes hs h
    | keyword word =>
      cases word with
      | trueWord | falseWord | nullWord => exact leaf_takes hs h
      | _ => cases h
    | punct mark =>
      cases mark with
      | leftParen => exact takes_group hi h
      | _ => cases h

theorem finds_trailer? (n : ν) : Finds (trailer? inner n) := by
  refine (takes_isAt _).finds_of fun _ => .cond ?_ ((takes_acceptAny _).finds_of fun _ => .cond ?_ finds_none)
  · exact ((takes_argumentList hi).first fun _ => (takes_closeFrom _ _ _).step fun m => takes_pure (some m)).finds
  · exact ((takes_name _).first fun _ => (takes_closeFrom _ _ _).step fun m => takes_pure (some m)).finds

theorem takes_call : Takes 1 (call inner) := (takes_primary hi).first fun n => takes_grow (finds_trailer? hi) n

theorem takes_unary : Takes 1 (unary inner) := by
  refine takes_offset.step fun _ => (takes_acceptAny _).step fun _ => .cond ?_ (takes_call hi)
  exact hi.operand.first fun _ => takes_close _ _ _

theorem takes_binary : Takes 1 (binary inner) := by
  unfold binary
  induction binaryOperators with
  | nil => exact takes_unary hi
  | cons operators levels ih => exact takes_binaryLevel ih operators

theorem takes_expressionBody : Takes 1 (expressionBody inner) :=
  takes_stream.step fun _ => .cond (takes_bareLambda hi) (.cond (takes_parenthesizedLambda hi) (takes_binary hi))

theorem takes_localDeclaration : Takes 1 (localDeclaration inner) :=
  takes_offset.step fun _ => takes_advance.step fun _ => (takes_name _).first fun _ =>
    (takes_expect _).weaken.step fun _ => hi.expression.weaken.step fun _ => (takes_expect _).weaken.step fun _ =>
      takes_close _ _ _

theorem takes_returnStatement : Takes 1 (returnStatement inner) := by
  refine takes_offset.step fun _ => takes_advance.step fun _ => (takes_isAt _).step fun _ => .cond ?_ ?_
  · exact (takes_expect _).first fun _ => takes_close _ _ _
  · exact hi.expression.first fun _ => (takes_expect _).weaken.step fun _ => takes_close _ _ _

theorem takes_expressionStatement : Takes 1 (expressionStatement inner) :=
  takes_offset.step fun _ => hi.expression.first fun _ => (takes_expect _).weaken.step fun _ => takes_close _ _ _

theorem takes_statement : Takes 1 (statement inner) := by
  intro s n s' h
  unfold statement at h
  rw [Simulation.stream_bind_run] at h
  rcases hs : (Builder.stream s).current? with _ | token
  · rw [hs] at h
    exact takes_expressionStatement hi h
  · rw [hs] at h
    cases token with
    | keyword word =>
      cases word with
      | varWord => exact takes_localDeclaration hi h
      | returnWord => exact takes_returnStatement hi h
      | _ => exact takes_expressionStatement hi h
    | punct mark =>
      cases mark with
      | leftBrace => exact hi.block h
      | _ => exact takes_expressionStatement hi h
    | _ => exact takes_expressionStatement hi h

theorem finds_blockItem? : Finds (blockItem? inner) :=
  takes_stream.finds_of fun _ => .cond finds_none ((takes_statement hi).first fun n => takes_pure (some n)).finds

theorem takes_blockBody : Takes 1 (blockBody inner) :=
  takes_offset.step fun _ => (takes_expect _).first fun _ => (takes_many (finds_blockItem? hi)).step fun _ =>
    (takes_expect _).weaken.step fun _ => takes_close _ _ _

theorem takes_methodDeclaration : Takes 1 (methodDeclaration inner) :=
  takes_offset.step fun _ => hi.type.first fun _ => (takes_name _).weaken.step fun _ => takes_offset.step fun _ =>
    (takes_expect _).weaken.step fun _ => (takes_commaSeparatedBefore (takes_typedParameter hi) _).step fun _ =>
      (takes_expect _).weaken.step fun _ => (takes_close _ _ _).step fun _ => (takes_expect _).weaken.step fun _ =>
        takes_close _ _ _

/-- Every production takes a token, in whatever state it is called. -/
theorem Production.takes (cap : Nat) (x : Production) : Takes 1 (x.read cap inner) := by
  induction x with
  | name slot => exact takes_name slot
  | typeArgumentList => exact takes_typeArgumentList hi
  | typeBody => exact takes_typeBody hi
  | type => exact hi.type
  | typedParameter => exact takes_typedParameter hi
  | lambdaParameter => exact takes_lambdaParameter hi
  | lambdaBody => exact takes_lambdaBody hi
  | bareLambda => exact takes_bareLambda hi
  | parenthesizedLambda => exact takes_parenthesizedLambda hi
  | argument => exact takes_argument hi
  | argumentList => exact takes_argumentList hi
  | group => exact takes_group hi
  | primary => exact takes_primary hi
  | call => exact takes_call hi
  | unary => exact takes_unary hi
  | operand => exact hi.operand
  | binaryLevel operators next ih => exact takes_binaryLevel ih operators
  | expressionBody => exact takes_expressionBody hi
  | expression => exact hi.expression
  | localDeclaration => exact takes_localDeclaration hi
  | returnStatement => exact takes_returnStatement hi
  | expressionStatement => exact takes_expressionStatement hi
  | statement => exact takes_statement hi
  | blockBody => exact takes_blockBody hi
  | block => exact hi.block
  | methodDeclaration => exact takes_methodDeclaration hi
  | item => exact takes_stream.step fun _ => .cond (takes_methodDeclaration hi) (takes_statement hi)

omit hi

theorem nestedIn_takes (cap : Nat) : ∀ levels, NestedTakes (nestedIn cap levels : NestedIn σ ν)
  | 0 => ⟨takes_fail _, takes_fail _, takes_fail _, takes_fail _⟩
  | levels + 1 =>
    have hi := nestedIn_takes cap levels
    ⟨takes_typeBody hi, takes_blockBody hi, takes_expressionBody hi, takes_unary hi⟩

end

/-! ## Loops without a bound -/

/-- A value before those that are read behind it, unless these are not read. -/
def prepend (a : α) : EStateM.Result ParseFault σ (List α) → EStateM.Result ParseFault σ (List α)
  | .ok as s => .ok (a :: as) s
  | .error fault s => .error fault s

/-- What comes of collecting what `item?` reads until it reads nothing. -/
inductive Collects (item? : Reading σ (Option α)) : σ → EStateM.Result ParseFault σ (List α) → Prop
  | finish {s s' : σ} (h : item? s = .ok none s') : Collects item? s (.ok [] s')
  | fault {s s' : σ} {fault : ParseFault} (h : item? s = .error fault s') : Collects item? s (.error fault s')
  | round {s s' : σ} {a : α} {result : EStateM.Result ParseFault σ (List α)} (h : item? s = .ok (some a) s')
      (hrest : Collects item? s' result) : Collects item? s (prepend a result)

/-- What comes of letting a value grow until `more?` adds nothing. -/
inductive Grows (more? : α → Reading σ (Option α)) : α → σ → EStateM.Result ParseFault σ α → Prop
  | finish {a : α} {s s' : σ} (h : more? a s = .ok none s') : Grows more? a s (.ok a s')
  | fault {a : α} {s s' : σ} {fault : ParseFault} (h : more? a s = .error fault s') :
      Grows more? a s (.error fault s')
  | round {a b : α} {s s' : σ} {result : EStateM.Result ParseFault σ α} (h : more? a s = .ok (some b) s')
      (hrest : Grows more? b s' result) : Grows more? a s result

/-- What comes of taking tokens through the next semicolon, or to the end. -/
inductive Resumes : σ → σ → Prop
  | finish {s : σ} (h : (Builder.stream s).ahead = []) : Resumes s s
  | semicolon {s : σ} (h : (Builder.stream s).isAt .semicolon = true) : Resumes s (Builder.advance s)
  | token {s s' : σ} (hne : (Builder.stream s).ahead ≠ []) (h : (Builder.stream s).isAt .semicolon = false)
      (hrest : Resumes (Builder.advance s) s') : Resumes s s'

/-- What comes of reading items to the end, going on behind the next semicolon after a faulty one. -/
inductive ReadsItems (cap : Nat) : σ → Items σ ν → Prop
  | finish {s : σ} (h : (Builder.stream s).ahead = []) : ReadsItems cap s ⟨[], [], s⟩
  | item {s s' : σ} {node : ν} {rest : Items σ ν} (hne : (Builder.stream s).ahead ≠ [])
      (h : item cap s = .ok node s') (hrest : ReadsItems cap s' rest) :
      ReadsItems cap s ⟨node :: rest.nodes, rest.faults, rest.state⟩
  | faulty {s s' s'' : σ} {fault : ParseFault} {rest : Items σ ν} (hne : (Builder.stream s).ahead ≠ [])
      (h : item cap s = .error fault s') (hresume : Resumes s' s'') (hrest : ReadsItems cap s'' rest) :
      ReadsItems cap s ⟨rest.nodes, fault :: rest.faults, rest.state⟩

theorem collects_manyFor {item? : Reading σ (Option α)} (hi : Finds item?)
    (hend : ∀ s, (Builder.stream s).ahead = [] → item? s = .ok none s) {rounds : List Lexeme} {s : σ}
    (hrounds : left s ≤ rounds.length) : Collects item? s (manyFor item? rounds s) := by
  induction rounds generalizing s with
  | nil => exact .finish (hend s (List.length_eq_zero_iff.1 (Nat.le_zero.1 hrounds)))
  | cons r rounds ih =>
    rw [manyFor]
    rcases hread : item? s with ⟨found, s'⟩ | ⟨fault, s'⟩
    · rw [bind_of_ok hread]
      cases found with
      | none => exact .finish hread
      | some a =>
        have htaken := hi hread
        rw [List.length_cons] at hrounds
        have hrest := ih (s := s') (by simp at htaken; omega)
        have hresult : (manyFor item? rounds >>= fun as => pure (a :: as)) s' =
            prepend a (manyFor item? rounds s') := by
          rcases hmany : manyFor item? rounds s' with ⟨as, s''⟩ | ⟨fault, s''⟩
          · exact bind_of_ok hmany
          · exact bind_of_error hmany
        have hround : Collects item? s (prepend a (manyFor item? rounds s')) := .round hread hrest
        rw [← hresult] at hround
        exact hround
    · rw [bind_of_error hread]
      exact .fault hread

theorem grows_growFor {more? : α → Reading σ (Option α)} (hm : ∀ a, Finds (more? a))
    (hend : ∀ a s, (Builder.stream s).ahead = [] → more? a s = .ok none s) {rounds : List Lexeme} {a : α} {s : σ}
    (hrounds : left s ≤ rounds.length) : Grows more? a s (growFor more? rounds a s) := by
  induction rounds generalizing a s with
  | nil => exact .finish (hend a s (List.length_eq_zero_iff.1 (Nat.le_zero.1 hrounds)))
  | cons r rounds ih =>
    rw [growFor]
    rcases hread : more? a s with ⟨found, s'⟩ | ⟨fault, s'⟩
    · rw [bind_of_ok hread]
      cases found with
      | none => exact .finish hread
      | some b =>
        have htaken := hm a hread
        rw [List.length_cons] at hrounds
        exact .round hread (ih (by simp at htaken; omega))
    · rw [bind_of_error hread]
      exact .fault hread

/-! ## The loops of the productions -/

/-- The loops that collect nodes: over the segments of a name, over the items of a list with commas, and over
the statements of a block. -/
inductive Loop where
  | segments
  | separated (x : Production)
  | statements

/-- What a loop reads in a round. -/
def Loop.item? (cap : Nat) (inner : NestedIn σ ν) : Loop → Reading σ (Option ν)
  | .segments => separatedItem? .dot (name .typeSegment)
  | .separated x => separatedItem? .comma (x.read cap inner)
  | .statements => blockItem? inner

/-- The loops in which a node grows: over the calls and member accesses behind an expression, and over the
operators of a level. -/
inductive Chain where
  | trailers
  | operations (operators : List Punct) (x : Production)

/-- What a node grows by in a round. -/
def Chain.more? (cap : Nat) (inner : NestedIn σ ν) : Chain → ν → Reading σ (Option ν)
  | .trailers => trailer? inner
  | .operations operators x => operation? operators (x.read cap inner)

section

variable {s : σ}

theorem isAt_eq_false_of_nil (h : (Builder.stream s).ahead = []) (mark : Punct) :
    (Builder.stream s).isAt mark = false := by
  rw [TokenStream.isAt, TokenStream.current?, h]
  rfl

theorem acceptAny_of_nil (h : (Builder.stream s).ahead = []) (marks : List Punct) :
    acceptAny marks s = .ok false s := by
  have hany : marks.any (Builder.stream s).isAt = false := List.any_eq_false.2 fun mark _ => by
    rw [isAt_eq_false_of_nil h]
    exact Bool.false_ne_true
  rw [acceptAny, hany]
  rfl

theorem Loop.item?_of_nil (h : (Builder.stream s).ahead = []) (cap : Nat) (inner : NestedIn σ ν) (x : Loop) :
    x.item? cap inner s = .ok none s := by
  cases x with
  | segments | separated => exact bind_of_ok (acceptAny_of_nil h _)
  | statements =>
    have hend : ((Builder.stream s).isAt .rightBrace || (Builder.stream s).ahead.isEmpty) = true := by
      rw [h]
      exact Bool.or_true _
    have hread : blockItem? inner s = .ok none s := by
      unfold blockItem?
      rw [Simulation.stream_bind_run, if_pos hend]
      rfl
    exact hread

theorem Chain.more?_of_nil (h : (Builder.stream s).ahead = []) (cap : Nat) (inner : NestedIn σ ν) (x : Chain) (n : ν) :
    x.more? cap inner n s = .ok none s := by
  have hat : isAt .leftParen s = .ok false s := congrArg (EStateM.Result.ok · s) (isAt_eq_false_of_nil h _)
  cases x with
  | trailers => exact (bind_of_ok hat).trans (bind_of_ok (acceptAny_of_nil h _))
  | operations operators x => exact bind_of_ok (acceptAny_of_nil h _)

end

section

variable [LawfulBuilder σ] {inner : NestedIn σ ν}

theorem Loop.finds (hi : NestedTakes inner) (cap : Nat) (x : Loop) : Finds (x.item? cap inner) := by
  cases x with
  | segments => exact finds_separatedItem? (takes_name _) _
  | separated x => exact finds_separatedItem? (x.takes hi cap) _
  | statements => exact finds_blockItem? hi

theorem Chain.finds (hi : NestedTakes inner) (cap : Nat) (x : Chain) (n : ν) : Finds (x.more? cap inner n) := by
  cases x with
  | trailers => exact finds_trailer? hi n
  | operations operators x => exact finds_operation? (x.takes hi cap) operators n

/-- The collecting loops end, and the rounds that they are given are enough. -/
theorem Loop.collects (hi : NestedTakes inner) (cap : Nat) (x : Loop) (s : σ) :
    Collects (x.item? cap inner) s (many (x.item? cap inner) s) :=
  collects_manyFor (x.finds hi cap) (fun _ h => x.item?_of_nil h cap inner) (Nat.le_refl _)

/-- The growing loops end, and the rounds that they are given are enough. -/
theorem Chain.grows (hi : NestedTakes inner) (cap : Nat) (x : Chain) (n : ν) (s : σ) :
    Grows (x.more? cap inner) n s (grow (x.more? cap inner) n s) :=
  grows_growFor (x.finds hi cap) (fun n _ h => x.more?_of_nil h cap inner n) (Nat.le_refl _)

/-! ## The loop over the items -/

theorem takes_item (cap : Nat) : Takes 1 (item cap : Reading σ ν) := by
  rw [item_eq]
  exact Production.item.takes (nestedIn_takes cap cap) cap

/-- Going on behind a faulty item ends. -/
theorem resumes_resume (s : σ) : Resumes s (resume s) := by
  have hgoal : ∀ (ls : List Lexeme) (s : σ), (Builder.stream s).ahead = ls → Resumes s (resumeFrom ls s) := by
    intro ls
    induction ls with
    | nil => exact fun s h => .finish h
    | cons l rest ih =>
      intro s h
      have hat : (Builder.stream s).isAt .semicolon = (l.token == .punct .semicolon) := by
        rw [TokenStream.isAt, TokenStream.current?, h]
        rfl
      rw [resumeFrom]
      split
      · rename_i hl
        exact .semicolon (by rw [hat, hl, beq_self_eq_true])
      · rename_i hl
        refine .token (by rw [h]; simp) (by rw [hat]; exact beq_eq_false_iff_ne.2 hl) (ih _ ?_)
        rw [Builder.advance, LawfulBuilder.stream_withStream, TokenStream.ahead_advance, h, List.tail_cons]
  exact hgoal _ s rfl

/-- A faulty item gives no token back. -/
theorem left_of_faulty {cap : Nat} {s s' : σ} {fault : ParseFault} (h : item cap s = .error fault s') :
    left s' ≤ left s := by
  rcases item_of_standsAt cap (.self s) with ⟨_, _, _, _, -, -, hread, -⟩ | ⟨_, j, _, -, -, hread, hs⟩
  · cases h.symm.trans hread
  · cases h.symm.trans hread
    rw [left, hs.ahead_eq, List.length_drop]
    exact Nat.sub_le _ _

/-- Where tokens are left, going on takes one. -/
theorem left_resume (s : σ) : left (resume s) ≤ left s - 1 := by
  have hstart := StandsAt.self s
  obtain ⟨-, -, htaken, -⟩ := Tokens.resumeAt_spec hstart.le
  rw [left, hstart.resume.ahead_eq, List.length_drop]
  dsimp only [left] at htaken ⊢
  omega

/-- The loop over the items ends, and the rounds that it is given are enough. -/
theorem readsItems_itemsFor (cap : Nat) {rounds : List Lexeme} {s : σ} (hrounds : left s ≤ rounds.length) :
    ReadsItems cap s (itemsFor cap rounds s) := by
  induction rounds generalizing s with
  | nil => exact .finish (List.length_eq_zero_iff.1 (Nat.le_zero.1 hrounds))
  | cons r rounds ih =>
    rw [List.length_cons] at hrounds
    unfold itemsFor
    split
    · rename_i hend
      exact .finish (List.isEmpty_iff.1 hend)
    · rename_i hend
      have hne := mt List.isEmpty_iff.2 hend
      have hleft : 0 < left s := List.length_pos_iff.2 hne
      rcases hread : item cap s with ⟨node, s'⟩ | ⟨fault, s'⟩
      · have htaken := takes_item cap hread
        exact .item hne hread (ih (by omega))
      · have hkept := left_of_faulty hread
        have htaken := left_resume s'
        exact .faulty hne hread (resumes_resume s') (ih (by omega))

end

/-! ## Looking ahead -/

/-- What comes of skipping items that each have a comma before them. -/
inductive SkipsCommas (afterItem? : List Lexeme → Option (List Lexeme)) :
    List Lexeme → Option (List Lexeme) → Prop
  | finish {ls : List Lexeme} (h : ∀ l ∈ ls.head?, l.token ≠ .punct .comma) : SkipsCommas afterItem? ls (some ls)
  | stop {l : Lexeme} {rest : List Lexeme} (hl : l.token = .punct .comma) (h : afterItem? rest = none) :
      SkipsCommas afterItem? (l :: rest) none
  | round {l : Lexeme} {rest mid : List Lexeme} {result : Option (List Lexeme)} (hl : l.token = .punct .comma)
      (h : afterItem? rest = some mid) (hmid : SkipsCommas afterItem? mid result) :
      SkipsCommas afterItem? (l :: rest) result

/-- Skipping type arguments ends, and the rounds that it is given are enough. -/
theorem skipsCommas_afterCommas (levels : Nat) {rounds ls : List Lexeme} (hrounds : ls.length ≤ rounds.length) :
    SkipsCommas (Lookahead.afterType? levels) ls (Lookahead.afterCommas (Lookahead.afterType? levels) rounds ls) := by
  induction rounds generalizing ls with
  | nil =>
    rw [List.length_eq_zero_iff.1 (Nat.le_zero.1 hrounds)]
    exact .finish fun l hl => by cases hl
  | cons r rounds ih =>
    cases ls with
    | nil => exact .finish fun l hl => by cases hl
    | cons l rest =>
      rw [Lookahead.afterCommas]
      by_cases hl : l.token = .punct .comma
      · rw [if_pos hl]
        rcases hitem : Lookahead.afterType? levels rest with _ | mid
        · exact .stop hl hitem
        · obtain ⟨ms, t, rfl, -⟩ := afterType?_derived levels hitem
          rw [List.length_cons, List.length_cons, List.length_append] at hrounds
          exact .round hl hitem (ih (by omega))
      · rw [if_neg hl]
        exact .finish fun m hm => by cases hm; exact hl

/-- Whether an arrow stands behind the parenthesis that closes the first one, by a count of the open ones that is
lowered at every closing one. There is no answer where there is nothing to lower. -/
def scanArrow? : Nat → List Lexeme → Option Bool
  | _, [] => some false
  | opened, l :: rest =>
    if l.token = .punct .leftParen then scanArrow? (opened + 1) rest
    else if l.token = .punct .rightParen then
      match opened with
      | 0 => none
      | 1 => some (rest.head?.any (·.token == .punct .fatArrow))
      | opened + 2 => scanArrow? (opened + 1) rest
    else scanArrow? opened rest

theorem scanArrow?_succ (opened : Nat) (ls : List Lexeme) : scanArrow? (opened + 1) ls =
    some (((Lookahead.afterClosing opened ls).bind List.head?).any (·.token == .punct .fatArrow)) := by
  induction ls generalizing opened with
  | nil => rfl
  | cons l rest ih =>
    unfold scanArrow? Lookahead.afterClosing
    split
    · exact ih (opened + 1)
    · split
      · cases opened with
        | zero => rfl
        | succ opened => exact ih opened
      · exact ih opened

/-- Behind a parenthesis there always is something to lower. -/
theorem scanArrow?_eq {l : Lexeme} {rest : List Lexeme} (hl : l.token = .punct .leftParen) :
    scanArrow? 0 (l :: rest) = some (Lookahead.startsParenthesizedLambda (l :: rest)) := by
  rw [scanArrow?, if_pos hl, scanArrow?_succ, Lookahead.startsParenthesizedLambda, hl]
  rcases Lookahead.afterClosing 0 rest with _ | (_ | ⟨m, _⟩) <;> rfl

/-! ## All loops -/

/-- Every loop ends: a relation for what it does without a bound on its rounds gives the result that it has with
the rounds that it is given. -/
structure LoopsEnd (cap levels : Nat) (s : σ) : Prop where
  collects : ∀ x : Loop, Collects (x.item? cap (nestedIn cap levels)) s (many (x.item? cap (nestedIn cap levels)) s)
  grows : ∀ (x : Chain) (n : ν),
    Grows (x.more? cap (nestedIn cap levels)) n s (grow (x.more? cap (nestedIn cap levels)) n s)
  resumes : Resumes s (resume s)
  items : ReadsItems cap s (itemsFor cap (Builder.stream s).ahead s)
  skips : ∀ levels, SkipsCommas (Lookahead.afterType? levels) (Builder.stream s).ahead
    (Lookahead.afterCommas (Lookahead.afterType? levels) (Builder.stream s).ahead (Builder.stream s).ahead)
  scans : (Builder.stream s).isAt .leftParen = true → scanArrow? 0 (Builder.stream s).ahead =
    some (Lookahead.startsParenthesizedLambda (Builder.stream s).ahead)

theorem loopsEnd [LawfulBuilder σ] (cap levels : Nat) (s : σ) : LoopsEnd cap levels s where
  collects x := x.collects (nestedIn_takes cap levels) cap s
  grows x n := x.grows (nestedIn_takes cap levels) cap n s
  resumes := resumes_resume s
  items := readsItems_itemsFor cap (Nat.le_refl _)
  skips levels := skipsCommas_afterCommas levels (Nat.le_refl _)
  scans hat := by
    obtain ⟨l, hl, hreads⟩ := TokenStream.isAt_iff.1 hat
    rw [hreads.ahead, List.singleton_append]
    exact scanArrow?_eq hl

end LetLint.Parse
