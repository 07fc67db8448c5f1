/-
Messages. The arguments of a message are filled in one after the other, each in place of its placeholder in
what the ones before it have left. If no argument holds the placeholder of a later one, and none makes one
together with the text around it, then this is the same as replacing all placeholders of the template at
once. Otherwise it is not: a placeholder that an argument brings is replaced as well.
-/
import LetLint.Proofs.Token.Spelling
import LetLint.Diagnostic.Basic

namespace LetLint

/-! ## Replacing -/

namespace Text

variable {piece value cs rest : List Char} {c : Char}

theorem replaceFrom_skip (piece value : List Char) (skip : Nat) (cs : List Char) :
    replaceFrom piece value skip cs = replaceFrom piece value 0 (cs.drop skip) := by
  induction cs generalizing skip with
  | nil =>
    rw [List.drop_nil]
    cases skip <;> rfl
  | cons c cs ih =>
    cases skip with
    | zero => rfl
    | succ skip => exact ih skip

/-- An occurrence is replaced, and replacing goes on behind it. -/
theorem replaceFrom_append (hpiece : piece ≠ []) (value rest : List Char) :
    replaceFrom piece value 0 (piece ++ rest) = value ++ replaceFrom piece value 0 rest := by
  obtain ⟨c, cs, rfl⟩ := List.exists_cons_of_ne_nil hpiece
  have hstarts : (c :: cs).isPrefixOf (c :: (cs ++ rest)) = true :=
    List.isPrefixOf_iff_prefix.2 (List.prefix_append (c :: cs) rest)
  rw [List.cons_append, replaceFrom, if_pos hstarts, replaceFrom_skip, List.length_cons, Nat.add_sub_cancel,
    List.drop_left]

theorem replaceFrom_cons (h : ¬ piece <+: c :: cs) (value : List Char) :
    replaceFrom piece value 0 (c :: cs) = c :: replaceFrom piece value 0 cs := by
  rw [replaceFrom, if_neg fun hstarts => h (List.isPrefixOf_iff_prefix.1 hstarts)]

/-- Characters in which no occurrence starts are left as they are. -/
theorem replaceFrom_block (value : List Char)
    (h : ∀ before d more, cs = before ++ d :: more → ¬ piece <+: d :: (more ++ rest)) :
    replaceFrom piece value 0 (cs ++ rest) = cs ++ replaceFrom piece value 0 rest := by
  induction cs with
  | nil => rfl
  | cons c cs ih =>
    rw [List.cons_append, replaceFrom_cons (h [] c cs rfl), List.cons_append]
    refine congrArg (c :: ·) (ih fun before d more heq => ?_)
    exact h (c :: before) d more (congrArg (c :: ·) heq)

end Text

/-! ## Placeholders -/

theorem toList_placeholder (i : Nat) : (placeholder i).toList = '\x7b' :: (Nat.toDigits 10 i ++ ['\x7d']) := by
  simp [placeholder]

theorem isDigit_of_mem_digits {i : Nat} {c : Char} (h : c ∈ Nat.toDigits 10 i) : Text.isDigit c = true :=
  Nat.isDigit_of_mem_toDigits (by decide) (by decide) h

/-- Two placeholders at one place are the same. -/
theorem placeholder_append_inj {i j : Nat} {rest more : List Char}
    (h : (placeholder i).toList ++ rest = (placeholder j).toList ++ more) : i = j ∧ rest = more := by
  rw [toList_placeholder, toList_placeholder, List.cons_append, List.cons_append, List.append_assoc, List.append_assoc]
    at h
  obtain ⟨hdigits, hrest⟩ := run_before_mark (by decide) (fun _ => isDigit_of_mem_digits)
    (fun _ => isDigit_of_mem_digits) (List.cons.inj h).2
  rw [← Nat.ofDigitChars_ten_toDigits (n := i), hdigits, Nat.ofDigitChars_ten_toDigits]
  exact ⟨rfl, hrest⟩

theorem eq_of_infix_placeholder {i j : Nat} (h : (placeholder i).toList <:+: (placeholder j).toList) : i = j := by
  obtain ⟨before, after, heq⟩ := h
  rw [List.append_assoc] at heq
  cases before with
  | nil => exact (placeholder_append_inj (heq.trans (List.append_nil _).symm)).1
  | cons c before =>
    -- no brace is opened within a placeholder
    have hmem : '\x7b' ∈ Nat.toDigits 10 j ++ ['\x7d'] := by
      rw [toList_placeholder, toList_placeholder] at heq
      rw [← (List.cons.inj heq).2]
      simp
    rcases List.mem_append.1 hmem with hdigit | hclosing
    · exact absurd (isDigit_of_mem_digits hdigit) (by decide)
    · exact absurd (List.mem_singleton.1 hclosing) (by decide)

/-- The characters end in an opening brace with nothing but digits behind it. -/
def EndsOpen (cs : List Char) : Prop := (cs.reverse.dropWhile Text.isDigit).head? = some '\x7b'

/-- The characters are digits, or digits up to a closing brace. -/
def Closes (cs : List Char) : Prop := (cs.dropWhile Text.isDigit).head?.all (· == '\x7d') = true

instance (cs : List Char) : Decidable (EndsOpen cs) := inferInstanceAs (Decidable (_ = _))

instance (cs : List Char) : Decidable (Closes cs) := inferInstanceAs (Decidable (_ = _))

section

variable {before ds cs rest more : List Char} {c : Char}

theorem endsOpen_append (before : List Char) (hds : ∀ d ∈ ds, Text.isDigit d = true) :
    EndsOpen (before ++ '\x7b' :: ds) := by
  unfold EndsOpen
  rw [List.reverse_append, List.reverse_cons, List.append_assoc,
    List.dropWhile_append_of_pos fun d hd => hds d (List.mem_reverse.1 hd)]
  rfl

theorem EndsOpen.append_digit (h : EndsOpen cs) (hc : Text.isDigit c = true) : EndsOpen (cs ++ [c]) := by
  unfold EndsOpen
  rwa [List.reverse_append, List.reverse_singleton, List.singleton_append, List.dropWhile_cons_of_pos hc]

theorem not_endsOpen_placeholder (i : Nat) : ¬ EndsOpen (placeholder i).toList := by
  unfold EndsOpen
  rw [toList_placeholder, ← List.cons_append, List.reverse_append, List.reverse_singleton, List.singleton_append,
    List.dropWhile_cons_of_neg (by decide)]
  exact fun h => absurd (Option.some.inj h) (by decide)

theorem not_closes_placeholder (i : Nat) : ¬ Closes (placeholder i).toList := by
  unfold Closes
  rw [toList_placeholder, List.dropWhile_cons_of_neg (by decide), List.head?_cons]
  decide

/-- A placeholder that starts in some characters lies in them, or they leave it open. -/
theorem endsOpen_of_prefix {i : Nat} (h : (placeholder i).toList <+: c :: (cs ++ rest)) (before : List Char) :
    (placeholder i).toList <+: c :: cs ∨ EndsOpen (before ++ c :: cs) := by
  have hblock : c :: cs <+: c :: (cs ++ rest) := List.prefix_append (c :: cs) rest
  by_cases hlength : (placeholder i).toList.length ≤ (c :: cs).length
  · exact .inl (List.prefix_of_prefix_length_le h hblock hlength)
  · have hpart := List.prefix_of_prefix_length_le hblock h (Nat.le_of_not_le hlength)
    rw [toList_placeholder] at hpart hlength
    obtain ⟨rfl, hinner⟩ := List.cons_prefix_cons.1 hpart
    have hdigits : cs <+: Nat.toDigits 10 i := by
      refine List.prefix_of_prefix_length_le hinner (List.prefix_append _ _) ?_
      simp only [List.length_cons, List.length_append, List.length_nil] at hlength
      omega
    exact .inr (endsOpen_append before fun d hd => isDigit_of_mem_digits (hdigits.subset hd))

/-- If digits and a closing brace go beyond the first characters, then these are digits themselves. -/
theorem closes_of_append (hds : ∀ d ∈ ds, Text.isDigit d = true) (h : cs ++ rest = ds ++ '\x7d' :: more) :
    Closes cs := by
  unfold Closes
  rcases List.append_eq_append_iff.1 h with ⟨as, rfl, -⟩ | ⟨as, rfl, has⟩
  · rw [List.dropWhile_eq_nil_iff.2 fun d hd => hds d (List.mem_append_left as hd)]
    rfl
  · rw [List.dropWhile_append_of_pos hds]
    obtain ⟨rfl, -⟩ | ⟨bs, rfl, -⟩ := List.cons_eq_append_iff.1 has <;> rfl

end

/-! ## Filling in -/

/-- Each placeholder of the first `count` indices that occurs in the template is replaced, and all else is
as it was. -/
inductive Filled (count : Nat) (fill : Nat → List Char) : List Char → List Char → Prop
  | nil : Filled count fill [] []
  | hole {i : Nat} {template message : List Char} (hi : i < count) (h : Filled count fill template message) :
      Filled count fill ((placeholder i).toList ++ template) (fill i ++ message)
  | plain {c : Char} {template message : List Char} (hc : ∀ i < count, ¬ (placeholder i).toList <+: c :: template)
      (h : Filled count fill template message) : Filled count fill (c :: template) (c :: message)

/-- The message is the template with the arguments in place of the placeholders that occur in it. -/
def Fills (arguments : List String) (template message : String) : Prop :=
  Filled arguments.length (fun i => (arguments.getD i "").toList) template.toList message.toList

namespace Filled

variable {count : Nat} {fill fill' : Nat → List Char} {template message : List Char}

theorem congr (hfill : ∀ i < count, fill i = fill' i) (h : Filled count fill template message) :
    Filled count fill' template message := by
  induction h with
  | nil => exact .nil
  | hole hi _ ih =>
    rw [hfill _ hi]
    exact .hole hi ih
  | plain hc _ ih => exact .plain hc ih

/-- There is one way to fill a template. -/
theorem unique (h : Filled count fill template message) : ∀ {other : List Char}, Filled count fill template other →
    message = other := by
  induction h with
  | nil =>
    intro other hother
    generalize htemplate : ([] : List Char) = template at hother
    cases hother with
    | nil => rfl
    | hole => simp [toList_placeholder] at htemplate
    | plain => cases htemplate
  | @hole i template message hi _ ih =>
    intro other hother
    generalize htemplate : (placeholder i).toList ++ template = whole at hother
    cases hother with
    | nil => simp [toList_placeholder] at htemplate
    | hole hj hrest =>
      obtain ⟨rfl, rfl⟩ := placeholder_append_inj htemplate
      rw [ih hrest]
    | plain hc hrest => exact absurd (htemplate ▸ List.prefix_append _ _) (hc i hi)
  | @plain c template message hc _ ih =>
    intro other hother
    generalize htemplate : c :: template = whole at hother
    cases hother with
    | nil => cases htemplate
    | hole hj hrest => exact absurd (htemplate ▸ List.prefix_append _ _) (hc _ hj)
    | plain _ hrest =>
      cases htemplate
      rw [ih hrest]

/-- With its own placeholders filled in, a template stays as it is. -/
theorem self (count : Nat) (template : List Char) :
    Filled count (fun i => (placeholder i).toList) template template := by
  induction hlength : template.length using Nat.strongRecOn generalizing template with
  | ind length ih =>
    cases template with
    | nil => exact .nil
    | cons c template =>
      by_cases hole : ∃ i < count, (placeholder i).toList <+: c :: template
      · obtain ⟨i, hi, rest, hrest⟩ := hole
        have hshort : rest.length < length := by
          rw [← hlength, ← hrest, List.length_append, toList_placeholder, List.length_cons]
          omega
        rw [← hrest]
        exact .hole hi (ih _ hshort rest rfl)
      · have hnone : ∀ i < count, ¬ (placeholder i).toList <+: c :: template := fun i hi h => hole ⟨i, hi, h⟩
        exact .plain hnone (ih _ (hlength ▸ Nat.lt_succ_self _) template rfl)

/-- A closing brace behind digits, where a brace was opened in the template, is the one of the template. -/
theorem exists_closing {whole : List Char}
    (hfill : ∀ i before after, i < count → whole = before ++ ((placeholder i).toList ++ after) → EndsOpen before →
      ¬ Closes (fill i))
    (h : Filled count fill template message) : ∀ {before ds after : List Char}, whole = before ++ template →
      EndsOpen before → (∀ d ∈ ds, Text.isDigit d = true) → message = ds ++ '\x7d' :: after →
      ∃ rest, template = ds ++ '\x7d' :: rest := by
  induction h with
  | nil =>
    intro before ds after _ _ _ hmessage
    simp at hmessage
  | hole hi _ _ =>
    intro before ds after hwhole hopen hds hmessage
    exact absurd (closes_of_append hds hmessage) (hfill _ before _ hi hwhole hopen)
  | @plain c template message _ _ ih =>
    intro before ds after hwhole hopen hds hmessage
    cases ds with
    | nil =>
      cases hmessage
      exact ⟨template, rfl⟩
    | cons d ds =>
      obtain ⟨hd, hmore⟩ := List.forall_mem_cons.1 hds
      cases hmessage
      have hnext : whole = (before ++ [c]) ++ template := by rw [hwhole, List.append_assoc, List.singleton_append]
      obtain ⟨rest, rfl⟩ := ih hnext (hopen.append_digit hd) hmore rfl
      exact ⟨rest, rfl⟩

/-- Replacing a placeholder in what was filled in so far fills in one index more, if the placeholder occurs
only where the template has it. -/
theorem replace {whole : List Char} {k : Nat} (value : List Char) (hk : k < count)
    (hself : fill k = (placeholder k).toList)
    (hfill : ∀ i before after, i < count → whole = before ++ ((placeholder i).toList ++ after) → EndsOpen before →
      ¬ Closes (fill i))
    (hother : ∀ i < count, i ≠ k → ¬ (placeholder k).toList <:+: fill i ∧ ¬ EndsOpen (fill i))
    (h : Filled count fill template message) : ∀ {before : List Char}, whole = before ++ template →
      Filled count (fun i => if i = k then value else fill i) template
        (Text.replaceFrom (placeholder k).toList value 0 message) := by
  induction h with
  | nil => exact fun _ => .nil
  | @hole i template message hi hrest ih =>
    intro before hwhole
    have hnext : whole = (before ++ (placeholder i).toList) ++ template := by rw [hwhole, List.append_assoc]
    by_cases hik : i = k
    · subst hik
      have hfilled := Filled.hole hi (ih hnext)
      rw [if_pos rfl] at hfilled
      rwa [hself, Text.replaceFrom_append (by simp [toList_placeholder])]
    · obtain ⟨hclosed, hopen⟩ := hother i hi hik
      have hfilled := Filled.hole hi (ih hnext)
      rw [if_neg hik] at hfilled
      rwa [Text.replaceFrom_block]
      -- an occurrence would lie in what is filled in, or start in it and leave it open
      intro first d more hsplit hprefix
      rw [hsplit] at hclosed hopen
      rcases endsOpen_of_prefix hprefix first with hinner | hends
      · exact hclosed (hinner.isInfix.trans (List.suffix_append first _).isInfix)
      · exact hopen hends
  | @plain c template message hc hrest ih =>
    intro before hwhole
    have hnext : whole = (before ++ [c]) ++ template := by rw [hwhole, List.append_assoc, List.singleton_append]
    rw [Text.replaceFrom_cons]
    · exact .plain hc (ih hnext)
    · rintro ⟨after, hprefix⟩
      rw [toList_placeholder, List.cons_append, List.append_assoc] at hprefix
      obtain ⟨rfl, hmessage⟩ := List.cons.inj hprefix
      obtain ⟨rest, rfl⟩ := hrest.exists_closing hfill hnext (endsOpen_append before (by simp))
        (fun _ => isDigit_of_mem_digits) hmessage.symm
      refine hc k hk ⟨rest, ?_⟩
      rw [toList_placeholder, List.cons_append, List.append_assoc]
      rfl

end Filled

/-! ## Messages -/

/-- No argument brings a placeholder of a later one: it holds none, it does not end in an open brace, and where
it stands behind an open brace of the template, it does not close that brace behind digits nor is digits only. -/
structure Apart (template : String) (arguments : List String) : Prop where
  absent : ∀ i j argument, arguments[i]? = some argument → i < j → j < arguments.length →
    ¬ (placeholder j).toList <:+: argument.toList
  unopened : ∀ i argument, arguments[i]? = some argument → i + 1 < arguments.length → ¬ EndsOpen argument.toList
  unclosed : ∀ i argument before after, arguments[i]? = some argument → i + 1 < arguments.length →
    template.toList = before ++ ((placeholder i).toList ++ after) → EndsOpen before → ¬ Closes argument.toList

/-- What the first arguments put in place of their placeholders, the others being as they are. -/
def fillFirst (arguments : List String) (k i : Nat) : List Char :=
  if i < k then (arguments.getD i "").toList else (placeholder i).toList

section

variable {template : String} {arguments : List String}

theorem getD_of_getElem? {i : Nat} {argument : String} (h : arguments[i]? = some argument) :
    arguments.getD i "" = argument := by
  rw [List.getD_eq_getElem?_getD, h, Option.getD_some]

/-- One more argument is filled in. -/
theorem Apart.step (h : Apart template arguments) {k : Nat} {argument : String} {message : List Char}
    (hk : arguments[k]? = some argument)
    (hfilled : Filled arguments.length (fillFirst arguments k) template.toList message) :
    Filled arguments.length (fillFirst arguments (k + 1)) template.toList
      (Text.replaceFrom (placeholder k).toList argument.toList 0 message) := by
  have hlt : k < arguments.length := (List.getElem?_eq_some_iff.1 hk).1
  have hself : fillFirst arguments k k = (placeholder k).toList := if_neg (Nat.lt_irrefl k)
  have hbefore {i : Nat} (hi : i < k) : ∃ a, arguments[i]? = some a ∧ fillFirst arguments k i = a.toList := by
    refine ⟨_, List.getElem?_eq_getElem (hi.trans hlt), ?_⟩
    rw [fillFirst, if_pos hi, getD_of_getElem? (List.getElem?_eq_getElem (hi.trans hlt))]
  have hbehind {i : Nat} (hi : ¬ i < k) : fillFirst arguments k i = (placeholder i).toList := if_neg hi
  have hreplaced := hfilled.replace argument.toList hlt hself ?closes ?other (List.nil_append _).symm
  case closes =>
    intro i before after _ hwhole hopen
    by_cases hi : i < k
    · obtain ⟨a, ha, hfill⟩ := hbefore hi
      rw [hfill]
      exact h.unclosed i a before after ha (by omega) hwhole hopen
    · rw [hbehind hi]
      exact not_closes_placeholder i
  case other =>
    intro i _ hne
    by_cases hi : i < k
    · obtain ⟨a, ha, hfill⟩ := hbefore hi
      rw [hfill]
      exact ⟨h.absent i k a ha hi hlt, h.unopened i a ha (by omega)⟩
    · rw [hbehind hi]
      exact ⟨fun hinfix => hne (eq_of_infix_placeholder hinfix).symm, not_endsOpen_placeholder i⟩
  refine hreplaced.congr fun i _ => ?_
  unfold fillFirst
  by_cases hik : i = k
  · subst hik
    rw [if_pos rfl, if_pos (Nat.lt_succ_self i), getD_of_getElem? hk]
  · rw [if_neg hik]
    simp only [show i < k ↔ i < k + 1 by omega]

/-- Replacing placeholder after placeholder from an index on fills in all arguments, if those before it are
filled in. -/
theorem Apart.run (h : Apart template arguments) {rest : List String} {k : Nat} {message : String}
    (hdrop : arguments.drop k = rest)
    (hfilled : Filled arguments.length (fillFirst arguments k) template.toList message.toList) :
    Filled arguments.length (fillFirst arguments arguments.length) template.toList ((rest.zipIdx k).foldl
      (fun message entry => Text.replaceAll message (placeholder entry.2) entry.1) message).toList := by
  induction rest generalizing k message with
  | nil =>
    have hall : arguments.length ≤ k := List.drop_eq_nil_iff.1 hdrop
    refine hfilled.congr fun i hi => ?_
    rw [fillFirst, fillFirst, if_pos hi, if_pos (Nat.lt_of_lt_of_le hi hall)]
  | cons argument rest ih =>
    have hk : arguments[k]? = some argument := by
      rw [← List.head?_drop, hdrop, List.head?_cons]
    have hrest : arguments.drop (k + 1) = rest := by
      rw [← List.tail_drop, hdrop, List.tail_cons]
    have hreplaced : Filled arguments.length (fillFirst arguments (k + 1)) template.toList
        (Text.replaceAll message (placeholder k) argument).toList := by
      rw [Text.replaceAll, String.toList_ofList]
      exact h.step hk hfilled
    exact ih hrest hreplaced

/-- All arguments are filled in. -/
theorem Apart.fills (h : Apart template arguments) : Fills arguments template (fillTemplate template arguments) := by
  have hall := h.run List.drop_zero (Filled.self arguments.length template.toList)
  refine hall.congr fun i hi => ?_
  exact if_pos hi

end

/-- If its arguments are apart, the message of a diagnostic is the template of its descriptor with every
placeholder in it replaced, all at once and nothing else; and no other message is. -/
theorem message_fills (descriptor : Descriptor) (location : Location) (flaggedText : String) {arguments : List String}
    (h : Apart descriptor.messageFormat arguments) :
    let message := (descriptor.diagnostic location flaggedText arguments).message
    Fills arguments descriptor.messageFormat message ∧
      ∀ other, Fills arguments descriptor.messageFormat other → other = message := by
  intro message
  exact ⟨h.fills, fun other hother => String.toList_inj.1 (Filled.unique hother h.fills)⟩

/-- An argument can hold braces and stand in braces. -/
theorem message_fills_braces :
    let descriptor := { Descriptor.limitReached with messageFormat := "\x7b\x7b0\x7d\x7d \x7b1\x7d" }
    Apart descriptor.messageFormat ["f() \x7b x \x7d", "\x7b0\x7d"] ∧
      Fills ["f() \x7b x \x7d", "\x7b0\x7d"] descriptor.messageFormat
        "\x7bf() \x7b x \x7d\x7d \x7b0\x7d" := by
  intro descriptor
  have hapart : Apart descriptor.messageFormat ["f() \x7b x \x7d", "\x7b0\x7d"] := by
    refine ⟨fun i j argument hi hlt hj => ?_, fun i argument hi hlt => ?_, fun i argument _ _ hi hlt _ _ => ?_⟩
    · obtain ⟨rfl, rfl⟩ : i = 0 ∧ j = 1 := by
        simp only [List.length_cons, List.length_nil] at hj
        omega
      cases hi
      decide +kernel
    · obtain rfl : i = 0 := by
        simp only [List.length_cons, List.length_nil] at hlt
        omega
      cases hi
      decide
    · obtain rfl : i = 0 := by
        simp only [List.length_cons, List.length_nil] at hlt
        omega
      cases hi
      decide
  have hmessage : (descriptor.diagnostic default "" ["f() \x7b x \x7d", "\x7b0\x7d"]).message =
      "\x7bf() \x7b x \x7d\x7d \x7b0\x7d" := by decide +kernel
  refine ⟨hapart, ?_⟩
  rw [← hmessage]
  exact (message_fills descriptor default "" hapart).1

/-- A placeholder that an argument brings is replaced by the next one, though it is none of the template's. -/
theorem not_forall_message_fills :
    ¬ ∀ (descriptor : Descriptor) (location : Location) (flaggedText : String) (arguments : List String),
      Fills arguments descriptor.messageFormat (descriptor.diagnostic location flaggedText arguments).message := by
  intro h
  let descriptor := { Descriptor.limitReached with messageFormat := "\x7b0\x7d" }
  have hmessage : (descriptor.diagnostic default "" ["\x7b1\x7d", "x"]).message = "x" := by decide +kernel
  have hfills := h descriptor default "" ["\x7b1\x7d", "x"]
  rw [hmessage] at hfills
  have hhole : Fills ["\x7b1\x7d", "x"] "\x7b0\x7d" "\x7b1\x7d" := .hole (i := 0) (by decide) .nil
  have hsame : "x".toList = "\x7b1\x7d".toList := Filled.unique hfills hhole
  exact absurd (String.toList_inj.1 hsame) (by decide)

end LetLint
