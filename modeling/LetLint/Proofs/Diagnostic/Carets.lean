/-
What stands above the carets. A finding flags a name, and a name has no line end and no blank in it: it
stands in one line of the text, the printer finds that line, and nothing of the name is trimmed away. So
under the line the carets mark the name, character by character.
-/
import LetLint.Diagnostic.Report
import LetLint.Proofs.Analysis.Schedule
import LetLint.Proofs.Text.Lines

namespace LetLint

/-! ## The line of a name -/

theorem not_mem_of_isName {word : String} (h : isName word = true) {c : Char} (hc : Text.isBlank c = true) :
    c ∉ word.toList := by
  intro hmem
  rw [isBlank_of_isName h hmem] at hc
  cases hc

/-- Nothing of a name is trimmed away. -/
theorem trimEnd_name {name : String} (h : isName name = true) (lead trail : List Char) :
    Text.trimEnd (lead ++ name.toList ++ trail) = lead ++ name.toList ++ Text.trimEnd trail := by
  refine Text.dropTrailing_append (fun c hc => isBlank_of_isName h ?_) trail
  rw [List.getLast?_append_of_ne_nil _ (toList_ne_nil_of_isName h)] at hc
  exact List.mem_of_getLast? hc

/-- A name that stands in a text at some place is part of one line, however that is cut out: the table of
lines has it under the line of the place, behind as many characters as the column says, and so has the
printer. -/
theorem Source.exists_line_of_isName {text name : String} {before rest : List Char}
    (h : text.toList = before ++ (name.toList ++ rest)) (hname : isName name = true) :
    ∃ i line lead trail, (ofText text).position (byteLength before) = ⟨i + 1, lead.length + 1⟩ ∧
      (Text.lines text.toList)[i]? = some (lead ++ name.toList ++ trail) ∧
      (ofText text).lineText? (i + 1) = some line ∧
      Text.trimEnd line.toList = lead ++ name.toList ++ Text.trimEnd trail := by
  have htext : (ofText text).text.toList = before ++ (name.toList ++ rest) := h
  obtain ⟨line, first, lead, more, behind, hline, hcut, rfl, hchars, hmore⟩ := exists_line htext
  have hplain : '\n' ∉ name.toList := not_mem_of_isName hname Text.isBlank_feed
  obtain ⟨tail, rfl⟩ := Line.exists_append_of_plain hmore hplain hcut.behind_starts
  have hposition := position_of_line rfl hline hcut hchars
  rw [← List.append_assoc] at hchars
  have hne : line.chars ≠ [] := by simp [hchars, toList_ne_nil_of_isName hname]
  obtain ⟨printed, hprinted, hsame⟩ := Text.exists_getElem?_lines hcut hne
  rw [hchars] at hsame
  obtain ⟨trail, rfl, htrim⟩ := Text.exists_trail hsame fun c hc hreturn => by
    rw [List.getLast?_append_of_ne_nil _ (toList_ne_nil_of_isName hname)] at hc
    exact not_mem_of_isName hname Text.isBlank_return (hreturn ▸ List.mem_of_getLast? hc)
  have hlineText : (ofText text).lineText? ((ofText text).lineIndex (byteLength (first ++ lead)) + 1) =
      some (String.ofList (Text.dropTrailing (· == '\r') line.chars)) := by
    rw [lineText?, if_neg (Nat.succ_ne_zero _), Nat.add_sub_cancel, hline, Option.map_some]
  refine ⟨_, _, lead, trail, hposition, hprinted, hlineText, ?_⟩
  rw [String.toList_ofList, Text.trimEnd_dropTrailing Text.isBlank_return, hchars, trimEnd_name hname, htrim]

/-! ## Blocks -/

/-- What is printed for one diagnostic, in pieces: a line with its place, severity and message, a line of the
text, and a line with carets. -/
structure Block where
  place : String
  severity : String
  message : String
  source : String
  indent : String
  carets : String

/-- The lines of a block. Only the severity and the carets are painted. -/
def Block.print (block : Block) (paint : String → String) : String :=
  block.place ++ paint block.severity ++ block.message ++ "\n" ++
    (Printer.margin ++ block.source ++ "\n" ++ (Printer.margin ++ block.indent ++ paint block.carets ++ "\n"))

/-- The block is that of the diagnostic, and its carets are aligned: they start in the column of the
diagnostic, with tabs before them where the line has tabs, and the text right above them is what is flagged. -/
structure Aligned (doc : Document) (fileName : String) (d : Diagnostic) (block : Block) : Prop where
  place_eq : block.place = fileName ++ "(" ++ toString d.location.extent.start.line ++ "," ++
    toString d.location.extent.start.column ++ "): "
  severity_eq : block.severity = d.severity.label
  message_eq : block.message = " " ++ d.ruleId ++ ": " ++ d.message
  source_eq : ∃ line, doc.source.lineText? d.location.extent.start.line = some line ∧
    block.source = String.ofList (Text.trimEnd line.toList)
  indent_length : block.indent.length + 1 = d.location.extent.start.column
  indent_eq : ∀ (i : Nat) (c : Char), block.indent.toList[i]? = some c →
    c = if block.source.toList[i]? = some '\t' then '\t' else ' '
  carets_eq : block.carets = String.ofList (List.replicate d.flaggedText.length '^')
  above : ((Printer.margin ++ block.source).toList.drop (Printer.margin ++ block.indent).length).take
    block.carets.length = d.flaggedText.toList

namespace Printer

variable {printer : Printer} {d : Diagnostic} {line : List Char}

/-- The block of a diagnostic in a line, with the name that its file is printed by. -/
def block (fileName : String) (d : Diagnostic) (line : List Char) : Block where
  place := fileName ++ "(" ++ toString d.location.extent.start.line ++ "," ++
    toString d.location.extent.start.column ++ "): "
  severity := d.severity.label
  message := " " ++ d.ruleId ++ ": " ++ d.message
  source := String.ofList (Text.trimEnd line)
  indent := String.ofList (indent line d.location.extent.start.column)
  carets := String.ofList (List.replicate (caretCount d) '^')

/-- If the line of a diagnostic is found, its block is printed. -/
theorem entry_eq_print (h : printer.sourceLine? d = some line) :
    printer.entry d = (block printer.fileName d line).print (printer.paint d.severity) := by
  simp only [entry, entryLines, h, List.map_cons, List.map_nil, String.join_cons, String.join_nil, header, sourceText,
    caretText, Block.print, block, String.append_assoc, String.append_empty]

/-- There is one caret for each character of a name. -/
theorem caretCount_of_isName (h : isName d.flaggedText = true) : caretCount d = d.flaggedText.length := by
  have hne := toList_ne_nil_of_isName h
  rw [caretCount, Text.lines_line (not_mem_of_isName h Text.isBlank_feed) hne, ← String.length_toList]
  exact Nat.max_eq_left (List.length_pos_iff.2 hne)

theorem indent_append (lead rest : List Char) :
    indent (lead ++ rest) (lead.length + 1) = lead.map fun c => if c = '\t' then '\t' else ' ' := by
  rw [indent, Nat.add_sub_cancel, List.take_left]

/-- The block of a name in its line is aligned. -/
theorem aligned_block {doc : Document} {fileName text : String} {lead trail : List Char}
    (hname : isName d.flaggedText = true) (hcolumn : d.location.extent.start.column = lead.length + 1)
    (hline : doc.source.lineText? d.location.extent.start.line = some text)
    (htrim : Text.trimEnd text.toList = lead ++ d.flaggedText.toList ++ Text.trimEnd trail) :
    Aligned doc fileName d (block fileName d (lead ++ d.flaggedText.toList ++ trail)) := by
  have hsource : (block fileName d (lead ++ d.flaggedText.toList ++ trail)).source =
      String.ofList (lead ++ (d.flaggedText.toList ++ Text.trimEnd trail)) := by
    rw [block, trimEnd_name hname, List.append_assoc]
  have hindent : (block fileName d (lead ++ d.flaggedText.toList ++ trail)).indent =
      String.ofList (lead.map fun c => if c = '\t' then '\t' else ' ') := by
    rw [block, hcolumn, List.append_assoc, indent_append]
  have hcarets : (block fileName d (lead ++ d.flaggedText.toList ++ trail)).carets =
      String.ofList (List.replicate d.flaggedText.length '^') := by
    rw [block, caretCount_of_isName hname]
  refine
    { place_eq := rfl
      severity_eq := rfl
      message_eq := rfl
      source_eq := ⟨text, hline, by rw [htrim, hsource, List.append_assoc]⟩
      indent_length := by rw [hindent, hcolumn, String.length_ofList, List.length_map]
      indent_eq := fun i c hc => ?_
      carets_eq := hcarets
      above := ?_ }
  · rw [hindent, String.toList_ofList, List.getElem?_map, Option.map_eq_some_iff] at hc
    obtain ⟨b, hb, rfl⟩ := hc
    rw [hsource, String.toList_ofList, List.getElem?_append_left (List.getElem?_eq_some_iff.1 hb).1, hb]
    simp only [Option.some.injEq]
  · rw [hsource, hindent, hcarets]
    simp only [String.toList_append, String.toList_ofList, String.length_append, String.length_ofList, List.length_map,
      List.length_replicate]
    have hmargin : (margin.toList ++ lead).length = margin.length + lead.length := by
      rw [List.length_append, String.length_toList]
    rw [← List.append_assoc, List.drop_left' hmargin, List.take_left' String.length_toList]

end Printer

section

variable {fileName text : String} {doc : Document} {model : Model}

/-- The printer finds the line of whatever is found in a text, and the block that it prints is aligned. -/
theorem exists_block_of_analyze (h : parse fileName text = .ok doc) (name : String) {d : Diagnostic}
    (hd : d ∈ Analyzer.builtin.analyze doc model) :
    ∃ line, (∀ colors, Printer.sourceLine? ⟨text, name, colors⟩ d = some line) ∧
      Aligned doc name d (Printer.block name d line) := by
  obtain ⟨m, hm, hk, rfl⟩ := exists_report_of_analyze hd
  obtain ⟨tokens, htokens, l, hl, htoken, htree⟩ := exists_lexeme_of_parse h hm hk
  obtain ⟨before, rest, htext, hstart, hname⟩ := exists_name_of_mem_tokenize htokens hl htoken
  obtain ⟨i, line, lead, trail, hposition, hprinted, hline, htrim⟩ := Source.exists_line_of_isName htext hname
  have hsource : doc.source = .ofText text := (root_of_parse h).1
  have hoffset : m.span.start = byteLength before := by
    rw [Node.span, htree]
    show l.start.offset = _
    rw [hstart, Mark.offset_advance_origin]
  have hplace : (LetSafety.report doc m).location.extent.start = ⟨i + 1, lead.length + 1⟩ := by
    rw [← hposition, ← hoffset, ← hsource]
    rfl
  refine ⟨lead ++ m.name.toList ++ trail, fun colors => ?_, ?_⟩
  · rw [Printer.sourceLine?, hplace]
    exact hprinted
  · refine Printer.aligned_block hname ?_ ?_ htrim
    · rw [hplace]
    · rw [hplace, hsource, hline]

/-! ## Reports -/

/-- The report on a text is one block for each finding, in their order, and all blocks are aligned. In colour
the blocks are the same, with the severities and the carets painted. -/
theorem report_aligned {ds : List Diagnostic} (h : analyzeText fileName text = .ok ds) (name : String) :
    ∃ (doc : Document) (block : Diagnostic → Block), parse fileName text = .ok doc ∧
      (∀ d ∈ ds, Aligned doc name d (block d)) ∧
      Printer.report ⟨text, name, false⟩ ds = String.join (ds.map fun d => (block d).print id) ∧
      Printer.report ⟨text, name, true⟩ ds =
        String.join (ds.map fun d => (block d).print fun piece => d.severity.color ++ piece ++ colorReset) := by
  obtain ⟨doc, hparse, rfl⟩ := exists_parse_of_analyzeText h
  have hblocks (d) (hd : d ∈ Analyzer.builtin.analyze doc (.ofTree doc.tree)) :=
    exists_block_of_analyze hparse name hd
  choose! line hline haligned using hblocks
  refine ⟨doc, fun d => Printer.block name d (line d), hparse, haligned, ?_, ?_⟩
  · exact congrArg String.join (List.map_congr_left fun d hd => Printer.entry_eq_print (hline d hd false))
  · exact congrArg String.join (List.map_congr_left fun d hd => Printer.entry_eq_print (hline d hd true))

theorem report_aligned_tabs :
    let text := "IServiceResponse<T> F(T é);\r\n\tö.Let(x =>\tF(x)); \r\n\rö.Let(F(1));\r"
    ∃ (ds : List Diagnostic) (doc : Document) (block : Diagnostic → Block), analyzeText "m.cs" text = .ok ds ∧
      ds.length = 2 ∧ (∀ d ∈ ds, Aligned doc "n.cs" d (block d)) ∧
      Printer.report ⟨text, "n.cs", false⟩ ds = String.join (ds.map fun d => (block d).print id) := by
  intro text
  have hrun : ((analyzeText "m.cs" text).toOption.any fun ds => ds.length = 2) = true := by decide +kernel
  simp only [Option.any_eq_true, decide_eq_true_eq] at hrun
  obtain ⟨ds, hds, hlength⟩ := hrun
  have hanalyzed := eq_ok_of_toOption hds
  obtain ⟨doc, block, -, haligned, hreport, -⟩ := report_aligned hanalyzed "n.cs"
  exact ⟨ds, doc, block, hanalyzed, hlength, haligned, hreport⟩

example :
    let text := "IServiceResponse<T> F();\r\n\tö.Let(F(1));\r"
    (analyzeText "m.cs" text).toOption.map (Printer.report ⟨text, "n.cs", false⟩) = some (
      "n.cs(2,8): warning NContext_0001: Unsafe use of IServiceResponse<T> inside Let expression.\n" ++
      "    \tö.Let(F(1));\n" ++
      "    \t      ^\n") := by
  decide +kernel

end

end LetLint
