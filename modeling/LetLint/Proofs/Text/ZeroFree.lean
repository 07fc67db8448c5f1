/-
Texts without a zero. Numbers, quoted texts and all fixed wordings hold none, and what is put together
from texts without a zero holds none either. So a message can hold a zero only where it shows a character
of the source, and a report only where it shows a line of it.
-/
import LetLint.Diagnostic.Report
import LetLint.Parse.Fault
import Mathlib.Data.List.Basic

namespace LetLint

/-- The text holds no zero. -/
def ZeroFree (text : String) : Prop := '\x00' ∉ text.toList

instance (text : String) : Decidable (ZeroFree text) := inferInstanceAs (Decidable ('\x00' ∉ text.toList))

/-! ## Putting texts together -/

@[simp] theorem zeroFree_append {a b : String} : ZeroFree (a ++ b) ↔ ZeroFree a ∧ ZeroFree b := by
  simp [ZeroFree]

@[simp] theorem zeroFree_ofList {cs : List Char} : ZeroFree (String.ofList cs) ↔ '\x00' ∉ cs := by
  simp [ZeroFree]

theorem zeroFree_join {texts : List String} (h : ∀ text ∈ texts, ZeroFree text) : ZeroFree (String.join texts) := by
  unfold ZeroFree
  rw [String.toList_join, List.mem_flatMap]
  rintro ⟨text, htext, hzero⟩
  exact h text htext hzero

theorem zeroFree_intercalate {separator : String} {texts : List String} (hs : ZeroFree separator)
    (h : ∀ text ∈ texts, ZeroFree text) : ZeroFree (separator.intercalate texts) := by
  induction texts with
  | nil => exact List.not_mem_nil
  | cons text texts ih =>
    obtain ⟨htext, htexts⟩ := List.forall_mem_cons.1 h
    cases texts with
    | nil => exact htext
    | cons next texts =>
      rw [String.intercalate_cons_cons]
      exact zeroFree_append.2 ⟨zeroFree_append.2 ⟨htext, hs⟩, ih htexts⟩

/-! ## Numbers -/

theorem mem_toDigitsCore {base fuel n : Nat} {ds : List Char} {c : Char} (hb : 0 < base)
    (h : c ∈ Nat.toDigitsCore base fuel n ds) : c ∈ ds ∨ ∃ d < base, c = Nat.digitChar d := by
  induction fuel generalizing n ds with
  | zero => exact .inl h
  | succ fuel ih =>
    have hcons : c ∈ Nat.digitChar (n % base) :: ds → c ∈ ds ∨ ∃ d < base, c = Nat.digitChar d := by
      intro hc
      rcases List.mem_cons.1 hc with rfl | hc
      · exact .inr ⟨_, Nat.mod_lt n hb, rfl⟩
      · exact .inl hc
    unfold Nat.toDigitsCore at h
    dsimp only at h
    split at h
    · exact hcons h
    · rcases ih h with hc | hd
      · exact hcons hc
      · exact .inr hd

theorem digitChar_ne_zero : ∀ d < 16, Nat.digitChar d ≠ '\x00' := by decide

/-- The digits of a number to base sixteen or less are no zeros. -/
theorem zero_not_mem_toDigits {base : Nat} (hb : 0 < base) (hbase : base ≤ 16) (n : Nat) :
    '\x00' ∉ Nat.toDigits base n := by
  intro h
  rcases mem_toDigitsCore hb h with hc | ⟨d, hlt, hd⟩
  · cases hc
  · exact digitChar_ne_zero d (by omega) hd.symm

theorem zeroFree_toString (n : Nat) : ZeroFree (toString n) :=
  zeroFree_ofList.2 (zero_not_mem_toDigits (by decide) (by decide) n)

theorem zeroFree_toString_int (z : Int) : ZeroFree (toString z) := by
  cases z with
  | ofNat n => exact zeroFree_toString n
  | negSucc n => exact zeroFree_append.2 ⟨by decide, zeroFree_toString (n + 1)⟩

theorem Number.zero_not_mem_positional {digits : List Char} (h : '\x00' ∉ digits) (lead : Int) :
    '\x00' ∉ positional digits lead := by
  unfold positional
  have htake : '\x00' ∉ digits.take (lead.toNat + 1) := fun hz => h (List.mem_of_mem_take hz)
  have hdrop : '\x00' ∉ digits.drop (lead.toNat + 1) := fun hz => h (List.mem_of_mem_drop hz)
  split_ifs
  · simp [List.mem_replicate, h]
  · dsimp only
    split_ifs <;> simp [List.mem_replicate, htake, hdrop]

theorem Number.zero_not_mem_scientific {digits : List Char} (h : '\x00' ∉ digits) (lead : Int) :
    '\x00' ∉ scientific digits lead := by
  unfold scientific
  have htake : '\x00' ∉ digits.take 1 := fun hz => h (List.mem_of_mem_take hz)
  have hdrop : '\x00' ∉ digits.drop 1 := fun hz => h (List.mem_of_mem_drop hz)
  have hlead : '\x00' ∉ (toString lead).toList := zeroFree_toString_int lead
  simp only [List.mem_append, not_or]
  refine ⟨⟨⟨htake, ?_⟩, by decide⟩, hlead⟩
  split_ifs
  · exact List.not_mem_nil
  · exact fun hz => hdrop ((List.mem_cons.1 hz).resolve_left (by decide))

theorem Number.zeroFree_decimal (d : Number.Decimal) : ZeroFree d.text := by
  have hdigits := zero_not_mem_toDigits (by decide : 0 < 10) (by decide) d.digits
  unfold Decimal.text
  rw [zeroFree_ofList]
  split_ifs
  · exact zero_not_mem_positional hdigits _
  · exact zero_not_mem_scientific hdigits _

theorem Number.zeroFree_text (x : Number.Binary64) : ZeroFree x.text := by
  unfold Binary64.text
  split
  · decide
  · split_ifs
    · decide
    · exact zeroFree_decimal _

/-! ## Quoted texts -/

theorem Text.zero_not_mem_escape (c : Char) : '\x00' ∉ Text.escape c := by
  unfold Text.escape
  split_ifs with _ _ _ _ _ hzero _
  -- the short escapes are fixed, and a zero has one of them
  iterate 6 decide
  · have hcode := zero_not_mem_toDigits (by decide : 0 < 16) (by decide) c.toNat
    simp [Text.spellCode, hcode]
  · exact fun h => hzero (List.mem_singleton.1 h).symm

theorem Text.zeroFree_quoted (text : String) : ZeroFree (Text.quoted text) := by
  unfold Text.quoted
  rw [zeroFree_ofList]
  simp [List.mem_flatMap, Text.zero_not_mem_escape]

/-! ## Messages -/

theorem Punct.zeroFree_label (mark : Punct) : ZeroFree mark.label := by cases mark <;> decide +kernel

theorem Slot.zeroFree_hint (slot : Slot) : ZeroFree slot.hint := by cases slot <;> decide +kernel

theorem NameSlot.zeroFree_hint (slot : NameSlot) : ZeroFree slot.hint := by cases slot <;> decide +kernel

theorem Token.zeroFree_describe (token : Token) : ZeroFree token.describe := by
  cases token with
  | keyword word => cases word <;> decide +kernel
  | identifier name => exact zeroFree_append.2 ⟨zeroFree_append.2 ⟨by decide, Text.zeroFree_quoted name⟩, by decide⟩
  | string value => exact zeroFree_append.2 ⟨zeroFree_append.2 ⟨by decide, Text.zeroFree_quoted value⟩, by decide⟩
  | number value => exact zeroFree_append.2 ⟨zeroFree_append.2 ⟨by decide, Number.zeroFree_text value⟩, by decide⟩
  | punct mark => exact mark.zeroFree_label

theorem Mark.zeroFree_suffix (mark : Mark) : ZeroFree mark.suffix := by
  have hline : ZeroFree (" at " ++ toString mark.line) := zeroFree_append.2 ⟨by decide, zeroFree_toString _⟩
  exact zeroFree_append.2 ⟨zeroFree_append.2 ⟨hline, by decide⟩, zeroFree_toString _⟩

/-- No message on the grammar holds a zero: what it shows of the text is quoted. -/
theorem ParseFault.zeroFree_message (fault : ParseFault) : ZeroFree fault.message := by
  have hfound : ZeroFree fault.foundText := by
    unfold foundText
    split
    · exact Token.zeroFree_describe _
    · decide
  refine zeroFree_append.2 ⟨?_, Mark.zeroFree_suffix fault.place⟩
  unfold sentence
  split
  · rename_i slot _
    have hfixed : ZeroFree "Expected " ∧ ZeroFree ", got " ∧ ZeroFree ". " := by decide
    obtain ⟨h1, h2, h3⟩ := hfixed
    simp only [zeroFree_append, slot.punct.zeroFree_label, slot.zeroFree_hint, and_self, *]
  · rename_i slot _
    have hgot : ZeroFree ", got " := by decide
    simp only [zeroFree_append, slot.zeroFree_hint, and_self, *]
  · exact zeroFree_append.2 ⟨by decide, hfound⟩
  · exact zeroFree_append.2 ⟨zeroFree_append.2 ⟨by decide, zeroFree_toString _⟩, by decide⟩

/-! ## Reports -/

/-- What replacing leaves was there before or is put in. -/
theorem Text.mem_of_mem_replaceFrom {piece value : List Char} {skip : Nat} {cs : List Char} {c : Char}
    (h : c ∈ replaceFrom piece value skip cs) : c ∈ value ∨ c ∈ cs := by
  fun_induction replaceFrom piece value skip cs with
  | case1 => cases h
  | case2 skip d cs ih => exact (ih h).imp_right (List.mem_cons_of_mem d)
  | case3 d cs _ ih =>
    rcases List.mem_append.1 h with hv | hrest
    · exact .inl hv
    · exact (ih hrest).imp_right (List.mem_cons_of_mem d)
  | case4 d cs _ ih =>
    rcases List.mem_cons.1 h with rfl | hrest
    · exact .inr List.mem_cons_self
    · exact (ih hrest).imp_right (List.mem_cons_of_mem d)

theorem zeroFree_fillTemplate {template : String} {arguments : List String} (ht : ZeroFree template)
    (h : ∀ argument ∈ arguments, ZeroFree argument) : ZeroFree (fillTemplate template arguments) := by
  unfold fillTemplate
  have hall : ∀ pair ∈ arguments.zipIdx, ZeroFree pair.1 := fun pair hpair => h _ (List.fst_mem_of_mem_zipIdx hpair)
  generalize arguments.zipIdx = pairs at hall
  induction pairs generalizing template with
  | nil => exact ht
  | cons pair pairs ih =>
    obtain ⟨hpair, hpairs⟩ := List.forall_mem_cons.1 hall
    refine ih ?_ hpairs
    exact zeroFree_ofList.2 fun hz => (Text.mem_of_mem_replaceFrom hz).elim hpair ht

/-- The characters of the lines of a text are characters of the text. -/
theorem Text.mem_of_mem_lines {cs line : List Char} {c : Char} (hline : line ∈ lines cs) (hc : c ∈ line) : c ∈ cs := by
  fun_induction lines cs generalizing line with
  | case1 => cases hline
  | case2 cs ih =>
    rcases List.mem_cons.1 hline with rfl | hline
    · cases hc
    · exact List.mem_cons_of_mem _ (ih hline hc)
  | case3 d cs _ _ ih => exact List.mem_cons_of_mem _ (ih hline hc)
  | case4 d cs _ _ hnil ih =>
    cases List.mem_singleton.1 hline
    exact List.mem_cons.2 (.inl (List.mem_singleton.1 hc))
  | case5 d cs _ _ first rest hlines ih =>
    rcases List.mem_cons.1 hline with rfl | hline
    · rcases List.mem_cons.1 hc with rfl | hc
      · exact List.mem_cons_self
      · exact List.mem_cons_of_mem _ (ih (by rw [hlines]; exact List.mem_cons_self) hc)
    · exact List.mem_cons_of_mem _ (ih (by rw [hlines]; exact List.mem_cons_of_mem _ hline) hc)

namespace Printer

variable {printer : Printer} {d : Diagnostic}

theorem zeroFree_paint {severity : Severity} {text : String} (h : ZeroFree text) :
    ZeroFree (printer.paint severity text) := by
  have hcolor : ZeroFree severity.color := by cases severity <;> decide
  unfold paint
  split_ifs
  · exact zeroFree_append.2 ⟨zeroFree_append.2 ⟨hcolor, h⟩, by decide⟩
  · exact h

theorem zeroFree_header (hname : ZeroFree printer.fileName) (hid : ZeroFree d.ruleId) (hmessage : ZeroFree d.message) :
    ZeroFree (printer.header d) := by
  have hlabel : ZeroFree d.severity.label := by cases d.severity <;> decide
  have hfixed : ZeroFree "(" ∧ ZeroFree "," ∧ ZeroFree "): " ∧ ZeroFree " " ∧ ZeroFree ": " := by decide
  obtain ⟨h1, h2, h3, h4, h5⟩ := hfixed
  unfold header
  simp only [zeroFree_append, zeroFree_toString, zeroFree_paint hlabel, and_self, *]

theorem zeroFree_sourceText {line : List Char} (h : '\x00' ∉ line) : ZeroFree (sourceText line) := by
  refine zeroFree_append.2 ⟨by decide, zeroFree_ofList.2 fun hz => h ?_⟩
  have hkept := (List.dropWhile_sublist _).mem (List.mem_reverse.1 hz)
  exact List.mem_reverse.1 hkept

theorem zeroFree_caretText (line : List Char) : ZeroFree (printer.caretText d line) := by
  refine zeroFree_append.2 ⟨zeroFree_append.2 ⟨by decide, zeroFree_ofList.2 fun hz => ?_⟩, zeroFree_paint ?_⟩
  · obtain ⟨c, -, hc⟩ := List.mem_map.1 hz
    split_ifs at hc <;> cases hc
  · exact zeroFree_ofList.2 fun hz => absurd (List.eq_of_mem_replicate hz) (by decide)

theorem zeroFree_entryLines (htext : ZeroFree printer.text) (hheader : ZeroFree (printer.header d)) :
    ∀ line ∈ printer.entryLines d, ZeroFree line := by
  unfold entryLines
  split
  · exact List.forall_mem_singleton.2 hheader
  · rename_i line hline
    have hzero : '\x00' ∉ line := fun hz => htext (Text.mem_of_mem_lines (List.mem_of_getElem? hline) hz)
    simp [hheader, zeroFree_sourceText hzero, zeroFree_caretText]

/-- A report holds no zero if the text, the name of the file and the findings hold none. -/
theorem zeroFree_report {ds : List Diagnostic} (htext : ZeroFree printer.text) (hname : ZeroFree printer.fileName)
    (hds : ∀ d ∈ ds, ZeroFree d.ruleId ∧ ZeroFree d.message) : ZeroFree (printer.report ds) := by
  refine zeroFree_join fun entry hentry => ?_
  obtain ⟨d, hd, rfl⟩ := List.mem_map.1 hentry
  obtain ⟨hid, hmessage⟩ := hds d hd
  refine zeroFree_join fun text hline => ?_
  obtain ⟨line, hmem, rfl⟩ := List.mem_map.1 hline
  have hheader := zeroFree_header hname hid hmessage
  exact zeroFree_append.2 ⟨zeroFree_entryLines htext hheader line hmem, by decide⟩

end Printer

end LetLint
